import TypedTable.Proofs.Csv.Filling

/-!
# Reads without data

An input that has no line with data is read as nothing, with a remark, and a table is left as it is.
The heading has just the columns that are read, except where it is the only line and the footer too:
then no line is left to count columns by, and the heading is refused for its fields.
-/

set_option autoImplicit false

namespace TypedTable.Csv

namespace Reading

variable {type : FieldType} {s : Settings} {feed : Feed} {splitter : Splitter} {heading : Line}

/-- The only line is the heading, with some fields, and the footer as well. -/
structure OnlyHeading (s : Settings) (splitter : Splitter) (heading : Line) : Prop where
  header : s.header = true
  footer : s.skipFooter = true
  lines : splitter.lines.toList = [heading]
  fields : heading.fields ≠ 0

/-- The number of columns of a matrix without rows: that of the first line which is no footer. -/
def emptyCols (s : Settings) (splitter : Splitter) : Nat :=
  ((Matrix.usableLines s.skipFooter splitter).head?.map (·.fields)).getD 0

def nothing (type : FieldType) (s : Settings) (splitter : Splitter)
    (names : Option (List String)) : Reading type :=
  { data := #[]
    rows := 0
    cols := emptyCols s splitter
    headings := names
    status := .noData
    remarks := splitter.warnings.toList.map .droppedLine ++ ignoredLines splitter ++ [.noData] }

theorem ofLines_of_no_lines (hcolumns : s.columns = none)
    (hlines : Matrix.dataLines s.plan splitter = []) :
    Matrix.ofLines s.dialect type s.plan splitter =
      .ok { data := #[], rows := 0, cols := emptyCols s splitter, status := .noData,
            remarks := [.noData] } := by
  have hof : Matrix.ofLines s.dialect type s.plan splitter =
      .ok (Matrix.empty type s.columns (Matrix.usableLines s.skipFooter splitter)) :=
    if_pos (List.isEmpty_iff.2 hlines)
  rw [hof, hcolumns, emptyCols]
  cases Matrix.usableLines s.skipFooter splitter <;> rfl

theorem ofSplitter_of_no_lines (hcolumns : s.columns = none)
    (hlines : Matrix.dataLines s.plan splitter = []) :
    ofSplitter type s splitter =
      nameColumns s splitter (emptyCols s splitter) >>= fun names =>
        .ok (nothing type s splitter names) := by
  rw [ofSplitter_eq, ofLines_of_no_lines hcolumns hlines]
  rfl

theorem headingTexts_of_heading {d : Dialect} (cols : Nat)
    (hfirst : splitter.lines[0]? = some heading) :
    headingTexts d splitter cols none =
      if heading.fields ≠ cols then .error (.ragged heading.number heading.fields cols)
      else .ok (splitter.fields heading |>.map (Field.toText d)) := by
  have htexts : (List.range heading.fields).map
      (fun index => Field.toText d (splitter.stream.field (heading.start + index))) =
        (splitter.fields heading).map (Field.toText d) := by
    rw [Splitter.fields, List.range'_eq_map_range, List.map_map, List.map_map]
    rfl
  rw [← htexts]
  unfold headingTexts
  rw [hfirst]

/-- If there is a heading, it is not read only where it does not have as many fields as columns. -/
theorem nameColumns_of_heading (hcolumns : s.columns = none) (hheader : s.header = true)
    (cols : Nat) {rest : List Line} (hfirst : splitter.lines.toList = heading :: rest) :
    nameColumns s splitter cols =
      if heading.fields ≠ cols then .error (.ragged heading.number heading.fields cols)
      else .ok (some ((splitter.fields heading).map (Field.toText s.dialect))) := by
  have hsize : 0 < splitter.lines.size := by
    rw [← Array.length_toList, hfirst]
    exact Nat.succ_pos _
  have hget : splitter.lines[0]? = some heading := by
    rw [← Array.getElem?_toList, hfirst]
    rfl
  unfold nameColumns
  rw [if_pos ⟨hheader, hsize⟩, hcolumns, headingTexts_of_heading cols hget]
  split <;> rfl

/-- A heading has the columns of a matrix without rows, unless it is the footer too. -/
theorem heading_fits_or_only (hheader : s.header = true) {rest : List Line}
    (hfirst : splitter.lines.toList = heading :: rest) :
    heading.fields = emptyCols s splitter ∨ OnlyHeading s splitter heading := by
  unfold emptyCols Matrix.usableLines
  cases hfooter : s.skipFooter with
  | false =>
    left
    rw [hfirst]
    rfl
  | true =>
    cases rest with
    | cons next later =>
      left
      rw [hfirst]
      rfl
    | nil =>
      by_cases hfields : heading.fields = 0
      · left
        rw [hfirst, hfields]
        rfl
      · exact .inr ⟨hheader, hfooter, hfirst, hfields⟩

theorem nameColumns_or_only (hcolumns : s.columns = none) :
    (∃ names, nameColumns s splitter (emptyCols s splitter) = .ok names) ∨
      ∃ heading, OnlyHeading s splitter heading := by
  by_cases hnamed : s.header = true ∧ 0 < splitter.lines.size
  · obtain ⟨heading, rest, hfirst⟩ : ∃ heading rest, splitter.lines.toList = heading :: rest :=
      List.exists_cons_of_length_pos hnamed.2
    rcases heading_fits_or_only hnamed.1 hfirst with hfits | honly
    · have hname := nameColumns_of_heading hcolumns hnamed.1 (emptyCols s splitter) hfirst
      rw [if_neg (not_not.2 hfits)] at hname
      exact .inl ⟨_, hname⟩
    · exact .inr ⟨heading, honly⟩
  · exact .inl ⟨none, if_neg hnamed⟩

theorem nameColumns_of_onlyHeading (hcolumns : s.columns = none)
    (h : OnlyHeading s splitter heading) :
    nameColumns s splitter (emptyCols s splitter) =
      .error (.ragged heading.number heading.fields 0) := by
  have hcols : emptyCols s splitter = 0 := by
    rw [emptyCols, Matrix.usableLines, h.footer, if_pos rfl, h.lines]
    rfl
  rw [hcols, nameColumns_of_heading hcolumns h.header 0 h.lines, if_pos h.fields]

section NoLines

variable (hvalid : s.validate = .ok ()) (hcolumns : s.columns = none)
  (hsplit : split s feed = .ok splitter) (hlines : Matrix.dataLines s.plan splitter = [])
include hvalid hcolumns hsplit hlines

theorem read_of_no_lines (type : FieldType) :
    read type s (.ok feed) =
      nameColumns s splitter (emptyCols s splitter) >>= fun names =>
        .ok (nothing type s splitter names) := by
  have hread : read type s (.ok feed) = s.validate.mapError .option >>= fun _ =>
      split s feed >>= ofSplitter type s := rfl
  rw [hread, hvalid, hsplit, ← ofSplitter_of_no_lines hcolumns hlines]
  rfl

theorem read_nothing (hnone : ¬ ∃ heading, OnlyHeading s splitter heading) (type : FieldType) :
    ∃ names, read type s (.ok feed) = .ok (nothing type s splitter names) := by
  rw [read_of_no_lines hvalid hcolumns hsplit hlines]
  have hnamed : (∃ names, nameColumns s splitter (emptyCols s splitter) = .ok names) ∨
      ∃ heading, OnlyHeading s splitter heading := nameColumns_or_only hcolumns
  obtain ⟨names, hnames⟩ | honly := hnamed
  · exact ⟨names, by rw [hnames]; rfl⟩
  · exact absurd honly hnone

theorem read_onlyHeading (honly : OnlyHeading s splitter heading) (type : FieldType) :
    read type s (.ok feed) = .error (.ragged heading.number heading.fields 0) := by
  rw [read_of_no_lines hvalid hcolumns hsplit hlines, nameColumns_of_onlyHeading hcolumns honly]
  rfl

end NoLines

end Reading

namespace Loading

open Reading

variable {s : Settings} {feed : Feed} {splitter : Splitter} {table : Table}

theorem fill_of_nothing
    (hread : ∀ type order, ∃ names, read (.scalar type) { s with order := order } (.ok feed) =
      .ok (nothing (.scalar type) { s with order := order } splitter names)) :
    fill table s feed = .ok (table, .noData) := by
  unfold fill
  cases s.loadType with
  | fixed type =>
    obtain ⟨names, hread⟩ := hread type s.order
    have hload : loadTyped type table s feed = .ok (table, .noData, none) := by
      unfold loadTyped
      rw [hread]
      rfl
    dsimp only
    rw [hload]
    rfl
  | auto =>
    obtain ⟨names, hread⟩ := hread .str .rowMajor
    have hload : loadDetected table s feed = .ok (table, .noData, none) := by
      unfold loadDetected
      rw [hread]
      rfl
    dsimp only
    rw [hload]
    rfl

theorem fill_of_refused {fault : ReadFault}
    (hread : ∀ type order,
      read (.scalar type) { s with order := order } (.ok feed) = .error fault) :
    fill table s feed = .error fault := by
  unfold fill
  cases s.loadType with
  | fixed type =>
    have hload : loadTyped type table s feed = .error fault := by
      unfold loadTyped
      rw [hread type s.order]
      rfl
    dsimp only
    rw [hload]
    rfl
  | auto =>
    have hload : loadDetected table s feed = .error fault := by
      unfold loadDetected
      rw [hread .str .rowMajor]
      rfl
    dsimp only
    rw [hload]
    rfl

theorem load_of_isEmpty (he : table.isEmpty = true) :
    load table s (.ok feed) =
      (fill table s feed).mapError fun fault => ⟨fault, Table.empty⟩ :=
  if_neg (by simp [he])

section NoLines

variable (hvalid : s.validate = .ok ()) (hcolumns : s.columns = none)
  (hsplit : split s feed = .ok splitter) (hlines : Matrix.dataLines s.plan splitter = [])
include hvalid hcolumns hsplit hlines

theorem load_nothing (hnone : ¬ ∃ heading, OnlyHeading s splitter heading)
    (he : table.isEmpty = true) : load table s (.ok feed) = .ok (table, .noData) := by
  have hread (type : ScalarType) (order : Order) : ∃ names,
      read (.scalar type) { s with order := order } (.ok feed) =
        .ok (nothing (.scalar type) { s with order := order } splitter names) := by
    refine read_nothing (s := { s with order := order }) hvalid hcolumns hsplit hlines ?_ _
    rintro ⟨heading, honly⟩
    exact hnone ⟨heading, honly.header, honly.footer, honly.lines, honly.fields⟩
  rw [load_of_isEmpty he, fill_of_nothing hread]
  rfl

theorem load_onlyHeading {heading : Line} (honly : OnlyHeading s splitter heading)
    (he : table.isEmpty = true) : load table s (.ok feed) =
      .error ⟨.ragged heading.number heading.fields 0, .empty⟩ := by
  have hread (type : ScalarType) (order : Order) :
      read (.scalar type) { s with order := order } (.ok feed) =
        .error (.ragged heading.number heading.fields 0) :=
    read_onlyHeading (s := { s with order := order }) hvalid hcolumns hsplit hlines
      ⟨honly.header, honly.footer, honly.lines, honly.fields⟩ _
  rw [load_of_isEmpty he, fill_of_refused hread]
  rfl

end NoLines

end Loading

open Reading Loading

/-- An input without data is no reason to refuse a read or a load: both say so, and the table stays
without columns. There is one exception. A heading that is the only line and the footer as well is
held against a matrix of no columns, so it is refused for having fields. -/
theorem noData_unless_only_heading (s : Settings) (feed : Feed) {splitter : Splitter}
    (hvalid : s.validate = .ok ()) (hcolumns : s.columns = none)
    (hsplit : split s feed = .ok splitter) (hlines : Matrix.dataLines s.plan splitter = []) :
    ((¬ ∃ heading, OnlyHeading s splitter heading) →
      (∀ type, ∃ reading, read type s (.ok feed) = .ok reading ∧
        reading.data = #[] ∧ reading.rows = 0 ∧ reading.status = .noData) ∧
      ∀ table : Table, table.isEmpty = true → load table s (.ok feed) = .ok (table, .noData)) ∧
    ∀ heading, OnlyHeading s splitter heading →
      (∀ type, read type s (.ok feed) = .error (.ragged heading.number heading.fields 0)) ∧
      ∀ table : Table, table.isEmpty = true → load table s (.ok feed) =
        .error ⟨.ragged heading.number heading.fields 0, .empty⟩ := by
  constructor
  · intro hnone
    refine ⟨fun type => ?_, fun table => load_nothing hvalid hcolumns hsplit hlines hnone⟩
    obtain ⟨names, hread⟩ := read_nothing hvalid hcolumns hsplit hlines hnone type
    exact ⟨_, hread, rfl, rfl, rfl⟩
  · intro heading honly
    exact ⟨read_onlyHeading hvalid hcolumns hsplit hlines honly,
      fun table => load_onlyHeading hvalid hcolumns hsplit hlines honly⟩

/-- A heading and a footer with nothing between them. -/
theorem noData_unless_only_heading_footer :
    let s : Settings := { header := true, skipFooter := true, loadType := .auto, chunkSize := 2 }
    let feed : Feed := .memory [97, 44, 98, 10, 49, 44, 50]
    (∀ type, ∃ reading, read type s (.ok feed) = .ok reading ∧
      reading.data = #[] ∧ reading.rows = 0 ∧ reading.status = .noData) ∧
    load .empty s (.ok feed) = .ok (.empty, .noData) := by
  intro s feed
  have hsplit : split s feed = .ok _ := split_eq_ok (by decide +kernel)
  have htwo : (s.session.tokenizeAll s.dialect feed).session.splitter.lines.toList.length = 2 := by
    decide +kernel
  have hnot : ¬ ∃ heading, OnlyHeading s
      (s.session.tokenizeAll s.dialect feed).session.splitter heading := by
    rintro ⟨heading, honly⟩
    rw [honly.lines] at htwo
    cases htwo
  obtain ⟨hnothing, hload⟩ :=
    (noData_unless_only_heading s feed rfl rfl hsplit (by decide +kernel)).1 hnot
  exact ⟨hnothing, hload .empty rfl⟩

/-- Of an input that is nothing but a heading, the heading is refused if it is the footer too. -/
theorem only_heading_refused :
    let s : Settings := { header := true, skipFooter := true }
    let feed : Feed := .memory [97, 44, 98, 10]
    s.validate = .ok () ∧ s.columns = none ∧
    (∃ splitter, split s feed = .ok splitter ∧ Matrix.dataLines s.plan splitter = []) ∧
    (∀ type, read type s (.ok feed) = .error (.ragged 1 2 0)) ∧
    load .empty s (.ok feed) = .error ⟨.ragged 1 2 0, .empty⟩ := by
  intro s feed
  have hsplit : split s feed = .ok _ := split_eq_ok (by decide +kernel)
  have hlines :
      Matrix.dataLines s.plan (s.session.tokenizeAll s.dialect feed).session.splitter = [] := by
    decide +kernel
  have honly : OnlyHeading s (s.session.tokenizeAll s.dialect feed).session.splitter ⟨0, 2, 1⟩ :=
    ⟨rfl, rfl, by decide +kernel, by decide⟩
  exact ⟨rfl, rfl, ⟨_, hsplit, hlines⟩, read_onlyHeading rfl rfl hsplit hlines honly,
    load_onlyHeading rfl rfl hsplit hlines honly rfl⟩

end TypedTable.Csv
