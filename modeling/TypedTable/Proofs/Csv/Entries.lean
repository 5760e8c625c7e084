import TypedTable.Proofs.Csv.MissingRows

/-!
# Entries of a matrix and the fields they come from

A matrix is refused for its lines before any of their fields is looked at. Without a selection of
columns all lines must have the same number of fields, with one every line must have those that are
selected. After that the first field without a value decides, unless missing entries are allowed;
then each of them is remarked on, in the order of the fields.
-/

set_option autoImplicit false

namespace TypedTable.Csv

namespace Matrix

/-- A field that becomes an entry: where its line is in the input, where the entry is in its row,
and its bytes. -/
structure Origin where
  line : Nat
  entry : Nat
  field : List UInt8
deriving DecidableEq, Repr

namespace Origin

def remark (origin : Origin) : Remark := .missingEntry origin.line origin.entry

def fault (origin : Origin) (cause : FieldFault) : ReadFault :=
  .field origin.line origin.entry cause

end Origin

/-- The fields of a line that become entries, by their place in the line: all of them, unless some
are selected. -/
def selected (columns : Option (List Nat)) (line : Line) : List Nat :=
  columns.getD (List.range line.fields)

def rowOrigins (columns : Option (List Nat)) (s : Splitter) (line : Line) : List Origin :=
  (selected columns line).zipIdx.map fun source =>
    ⟨line.number, source.2, s.stream.field (line.start + source.1)⟩

def origins (columns : Option (List Nat)) (s : Splitter) (lines : List Line) : List Origin :=
  lines.flatMap (rowOrigins columns s)

def Lacks (columns : List Nat) (line : Line) : Prop := ∃ col ∈ columns, line.fields ≤ col

/-- The number of fields up to any of the selected columns is a machine word. -/
def Countable (columns : Option (List Nat)) : Prop :=
  ∀ selection ∈ columns, ∀ col ∈ selection, col + 1 < wordLimit

def Uneven (columns : Option (List Nat)) (lines : List Line) : Prop :=
  match columns with
  | none => ∃ a ∈ lines, ∃ b ∈ lines, a.fields ≠ b.fields
  | some columns => ∃ line ∈ lines, Lacks columns line

/-- What a matrix has to do with the lines it is made of. -/
structure Exact (d : Dialect) {type : FieldType} (plan : MatrixPlan) (s : Splitter)
    (matrix : Matrix type) : Prop where
  rows : matrix.rows = (dataLines plan s).length
  cols : ∀ line ∈ dataLines plan s, (selected plan.columns line).length = matrix.cols
  size : matrix.data.size = matrix.rows * matrix.cols
  cell : ∀ row line, (dataLines plan s)[row]? = some line →
    ∀ col source, (selected plan.columns line)[col]? = some source →
      matrix.data[plan.order.offset row col matrix.rows matrix.cols]? =
        some (Field.valueOrMissing d type (s.stream.field (line.start + source)))
  remarks : matrix.remarks = ((origins plan.columns s (dataLines plan s)).filter fun origin =>
    (Field.value? d type origin.field).isNone).map Origin.remark
  status : matrix.status = if matrix.remarks = [] then .success else .missingData

variable {d : Dialect} {type : FieldType} {plan : MatrixPlan} {s : Splitter} {lines : List Line}
  {columns : List Nat} {warn : Bool}

/-! ## Widths of lines -/

theorem lt_neededFields_iff {fields : Nat} (hcounts : ∀ col ∈ columns, col + 1 < wordLimit) :
    fields < neededFields (some columns) lines ↔ ∃ col ∈ columns, fields ≤ col := by
  cases hlast : columns.max? with
  | none =>
    obtain rfl := List.max?_eq_none_iff.1 hlast
    simp [neededFields]
  | some last =>
    obtain ⟨hmem, hle⟩ := List.max?_eq_some_iff.1 hlast
    have hneeded : neededFields (some columns) lines = last + 1 := by
      simp [neededFields, hlast, Nat.mod_eq_of_lt (hcounts last hmem)]
    rw [hneeded, Nat.lt_succ_iff]
    exact ⟨fun h => ⟨last, hmem, h⟩, fun ⟨col, hcol, h⟩ => h.trans (hle col hcol)⟩

theorem isRagged_some_iff {line : Line} (hcounts : ∀ col ∈ columns, col + 1 < wordLimit) :
    isRagged (some columns) (neededFields (some columns) lines) line = true ↔
      Lacks columns line := by
  simp [isRagged, Lacks, lt_neededFields_iff hcounts]

theorem checkWidth_eq_error_iff {selection : Option (List Nat)} {needed : Nat} {fault : ReadFault} :
    checkWidth selection needed lines = .error fault ↔
      ∃ line, FirstOf (fun line => isRagged selection needed line = true) lines line ∧
        fault = .ragged line.number line.fields needed := by
  simp only [← find?_eq_some_iff_firstOf]
  unfold checkWidth
  cases lines.find? (isRagged selection needed) <;> simp [eq_comm]

/-- The first line that lacks a field is named, with the number of fields that are needed. -/
theorem checkWidth_some_eq_error_iff {fault : ReadFault}
    (hcounts : ∀ col ∈ columns, col + 1 < wordLimit) :
    checkWidth (some columns) (neededFields (some columns) lines) lines = .error fault ↔
      ∃ line, FirstOf (Lacks columns) lines line ∧
        fault = .ragged line.number line.fields (neededFields (some columns) lines) := by
  simp only [checkWidth_eq_error_iff, isRagged_some_iff hcounts]

/-- The average number of fields is that of every line just if all lines have the same. -/
theorem checkWidth_none_eq_ok_iff (hn : lines ≠ []) :
    checkWidth none (neededFields none lines) lines = .ok () ↔
      ¬ Uneven none lines := by
  constructor
  · rintro hok ⟨a, ha, b, hb, hne⟩
    have hwidth : ∀ line ∈ lines, line.fields = neededFields none lines := by
      intro line hline
      by_contra hother
      obtain ⟨found, hfound⟩ := (exists_firstOf_iff (P := fun line =>
        isRagged none (neededFields none lines) line = true)).2
          ⟨line, hline, by simpa [isRagged] using hother⟩
      rw [checkWidth_eq_error_iff.2 ⟨found, hfound, rfl⟩] at hok
      cases hok
    exact hne ((hwidth a ha).trans (hwidth b hb).symm)
  · intro heven
    obtain ⟨first, hfirst⟩ := List.exists_mem_of_ne_nil lines hn
    have hwidth : ∀ line ∈ lines, line.fields = first.fields := by
      intro line hline
      by_contra hne
      exact heven ⟨line, hline, first, hfirst, hne⟩
    rw [neededFields_even hn hwidth, checkWidth_even hwidth]

theorem checkWidth_eq_ok_iff {selection : Option (List Nat)} (hcounts : Countable selection)
    (hn : lines ≠ []) :
    checkWidth selection (neededFields selection lines) lines = .ok () ↔
      ¬ Uneven selection lines := by
  cases selection with
  | none => exact checkWidth_none_eq_ok_iff hn
  | some columns =>
    replace hcounts := hcounts columns rfl
    change _ ↔ ¬ ∃ line ∈ lines, _
    rw [← exists_firstOf_iff, not_exists]
    constructor
    · intro hok line hfirst
      rw [(checkWidth_some_eq_error_iff hcounts).2 ⟨line, hfirst, rfl⟩] at hok
      cases hok
    · intro hnone
      cases hcheck : checkWidth (some columns) (neededFields (some columns) lines) lines with
      | ok u => rfl
      | error fault =>
        obtain ⟨line, hfirst, -⟩ := (checkWidth_some_eq_error_iff hcounts).1 hcheck
        exact absurd hfirst (hnone line)

theorem selected_eq {selection : Option (List Nat)} (heven : ¬ Uneven selection lines) :
    ∀ line ∈ lines, selected selection line = sourceColumns selection lines := by
  intro line hline
  cases selection with
  | some columns => rfl
  | none =>
    have hwidth : ∀ other ∈ lines, other.fields = line.fields := by
      intro other hother
      by_contra hne
      exact heven ⟨other, hother, line, hline, hne⟩
    rw [sourceColumns_even (List.ne_nil_of_mem hline) hwidth]
    rfl

theorem lt_fields_of_even {selection : Option (List Nat)} (heven : ¬ Uneven selection lines)
    {line : Line} (hline : line ∈ lines) {col : Nat} (hcol : col ∈ selected selection line) :
    col < line.fields := by
  cases selection with
  | none => exact List.mem_range.1 hcol
  | some columns =>
    by_contra hlacks
    exact heven ⟨line, hline, col, hcol, Nat.not_lt.1 hlacks⟩

/-! ## Entries -/

def convertOrigin (d : Dialect) (type : FieldType) (warn : Bool) (origin : Origin) :
    Except ReadFault (type.Carrier × Option Remark) :=
  entry d type warn origin.line origin.field origin.entry

theorem convertOrigin_eq_error_iff {origin : Origin} {fault : ReadFault} :
    convertOrigin d type warn origin = .error fault ↔
      warn = false ∧ ∃ cause, Field.convert d type origin.field = .error cause ∧
        fault = origin.fault cause := by
  unfold convertOrigin entry
  cases Field.convert d type origin.field with
  | ok converted => simp
  | error cause => cases warn <;> simp [Origin.fault, eq_comm]

theorem remark_of_convertOrigin {origin : Origin} {found : type.Carrier × Option Remark}
    (hok : convertOrigin d type warn origin = .ok found) :
    found.2 = if (Field.value? d type origin.field).isNone then some origin.remark else none := by
  unfold convertOrigin entry at hok
  unfold Field.value?
  cases hconvert : Field.convert d type origin.field with
  | ok converted =>
    rw [hconvert] at hok
    obtain rfl := Except.ok.inj hok
    rfl
  | error cause =>
    rw [hconvert] at hok
    cases warn with
    | false => cases hok
    | true =>
      obtain rfl := Except.ok.inj hok
      rfl

theorem remarks_of_run {origins : List Origin} {found : List (type.Carrier × Option Remark)}
    (hok : origins.mapM (convertOrigin d type warn) = .ok found) :
    found.filterMap (·.2) =
      (origins.filter fun origin => (Field.value? d type origin.field).isNone).map
        Origin.remark := by
  induction origins generalizing found with
  | nil =>
    cases hok
    rfl
  | cons origin origins ih =>
    rw [List.mapM_cons] at hok
    obtain ⟨first, hfirst, hok⟩ := bind_eq_ok_iff.1 hok
    obtain ⟨rest, hrest, hok⟩ := bind_eq_ok_iff.1 hok
    obtain rfl := Except.ok.inj hok
    rw [List.filterMap_cons, remark_of_convertOrigin hfirst, ih hrest, List.filter_cons]
    cases (Field.value? d type origin.field).isNone <;> rfl

def ofEntries (type : FieldType) (order : Order) (rows cols : Nat)
    (entries : List (type.Carrier × Option Remark)) : Matrix type :=
  { data := arrange order rows cols type.missing (entries.map (·.1)).toArray
    rows := rows
    cols := cols
    status := if (entries.filterMap (·.2)).isEmpty then .success else .missingData
    remarks := entries.filterMap (·.2) }

theorem ofLines_of_lines (hlines : dataLines plan s ≠ []) :
    ofLines d type plan s =
      checkWidth plan.columns (neededFields plan.columns (dataLines plan s)) (dataLines plan s) >>=
        fun _ =>
        (dataLines plan s).mapM (row d type plan.warnForMissing s
            (sourceColumns plan.columns (dataLines plan s))) >>= fun rows =>
          .ok (ofEntries type plan.order (dataLines plan s).length
            (sourceColumns plan.columns (dataLines plan s)).length rows.flatten) :=
  (if_neg (mt List.isEmpty_iff.1 hlines)).trans rfl

/-- Once the lines are found to be even, the fields are converted one after the other. -/
theorem ofLines_of_even (hcounts : Countable plan.columns) (hlines : dataLines plan s ≠ [])
    (heven : ¬ Uneven plan.columns (dataLines plan s)) :
    ofLines d type plan s =
      (origins plan.columns s (dataLines plan s)).mapM
          (convertOrigin d type plan.warnForMissing) >>=
        fun entries => .ok (ofEntries type plan.order (dataLines plan s).length
          (sourceColumns plan.columns (dataLines plan s)).length entries) := by
  have hrow : ∀ line ∈ dataLines plan s,
      row d type plan.warnForMissing s (sourceColumns plan.columns (dataLines plan s)) line =
        (rowOrigins plan.columns s line).mapM (convertOrigin d type plan.warnForMissing) := by
    intro line hline
    rw [rowOrigins, List.mapM_map, ← selected_eq heven line hline, row]
    refine mapM_congr fun source hsource => ?_
    rw [fieldIndex_of_lt (lt_fields_of_even heven hline (List.fst_mem_of_mem_zipIdx hsource))]
    rfl
  rw [ofLines_of_lines hlines, (checkWidth_eq_ok_iff hcounts hlines).2 heven, ok_bind, origins,
    mapM_flatMap hrow]
  cases (dataLines plan s).mapM (row d type plan.warnForMissing s
    (sourceColumns plan.columns (dataLines plan s))) <;> rfl

theorem even_of_ofLines (hcounts : Countable plan.columns) (hlines : dataLines plan s ≠ [])
    {matrix : Matrix type} (hok : ofLines d type plan s = .ok matrix) : ¬ Uneven plan.columns (dataLines plan s) := by
  rw [ofLines_of_lines hlines] at hok
  obtain ⟨⟨⟩, hwidth, -⟩ := bind_eq_ok_iff.1 hok
  exact (checkWidth_eq_ok_iff hcounts hlines).1 hwidth

theorem ofLines_eq_ragged_iff (hcounts : Countable plan.columns) (hlines : dataLines plan s ≠ [])
    {number fields expected : Nat} :
    ofLines d type plan s = .error (.ragged number fields expected) ↔
      checkWidth plan.columns (neededFields plan.columns (dataLines plan s)) (dataLines plan s) =
        .error (.ragged number fields expected) := by
  constructor
  · intro hfailed
    by_cases heven : Uneven plan.columns (dataLines plan s)
    · rw [ofLines_of_lines hlines] at hfailed
      rcases bind_eq_error_iff.1 hfailed with hwidth | ⟨⟨⟩, hwidth, -⟩
      · exact hwidth
      · exact absurd heven ((checkWidth_eq_ok_iff hcounts hlines).1 hwidth)
    · rw [ofLines_of_even hcounts hlines heven] at hfailed
      rcases bind_eq_error_iff.1 hfailed with hrun | ⟨_, -, hpure⟩
      · obtain ⟨origin, -, hrefused⟩ := mapM_eq_error_iff.1 hrun
        obtain ⟨-, cause, -, hfault⟩ := convertOrigin_eq_error_iff.1 hrefused
        cases hfault
      · cases hpure
  · intro hwidth
    rw [ofLines_of_lines hlines, hwidth]
    rfl

theorem exists_ragged_iff (hcounts : Countable plan.columns) (hlines : dataLines plan s ≠ []) :
    (∃ number fields expected, ofLines d type plan s = .error (.ragged number fields expected)) ↔
      Uneven plan.columns (dataLines plan s) := by
  simp only [ofLines_eq_ragged_iff hcounts hlines]
  rw [← not_iff_not, ← checkWidth_eq_ok_iff hcounts hlines]
  constructor
  · intro hnone
    cases hcheck : checkWidth plan.columns (neededFields plan.columns (dataLines plan s))
        (dataLines plan s) with
    | ok u => rfl
    | error fault =>
      obtain ⟨line, -, rfl⟩ := checkWidth_eq_error_iff.1 hcheck
      exact absurd ⟨_, _, _, hcheck⟩ hnone
  · rintro hok ⟨number, fields, expected, hfailed⟩
    rw [hok] at hfailed
    cases hfailed

theorem ofLines_eq_ragged_iff_first (hcounts : Countable plan.columns)
    (hlines : dataLines plan s ≠ []) (hcolumns : plan.columns = some columns) {number fields expected : Nat} :
    ofLines d type plan s = .error (.ragged number fields expected) ↔
      ∃ line, FirstOf (Lacks columns) (dataLines plan s) line ∧
        number = line.number ∧ fields = line.fields ∧
          expected = neededFields (some columns) (dataLines plan s) := by
  rw [ofLines_eq_ragged_iff hcounts hlines, hcolumns]
  refine (checkWidth_some_eq_error_iff (hcounts columns hcolumns)).trans ?_
  simp only [ReadFault.ragged.injEq]

section Even

variable (hcounts : Countable plan.columns) (hlines : dataLines plan s ≠ [])
  (heven : ¬ Uneven plan.columns (dataLines plan s))

include hcounts hlines heven

/-- Among even lines the first field without a value is named, if entries must not be missing. -/
theorem ofLines_eq_error_iff {fault : ReadFault} :
    ofLines d type plan s = .error fault ↔
      plan.warnForMissing = false ∧ ∃ origin cause,
        FirstOf (fun origin : Origin => Field.value? d type origin.field = none)
          (origins plan.columns s (dataLines plan s)) origin ∧
        Field.convert d type origin.field = .error cause ∧ fault = origin.fault cause := by
  have hnone (origin : Origin) : Field.value? d type origin.field = none ↔
      ∃ cause, Field.convert d type origin.field = .error cause := by
    unfold Field.value?
    cases Field.convert d type origin.field <;> simp
  have hrun (found : List (type.Carrier × Option Remark)) :
      ¬ (.ok (ofEntries type plan.order (dataLines plan s).length
        (sourceColumns plan.columns (dataLines plan s)).length found) :
          Except ReadFault (Matrix type)) = .error fault := nofun
  rw [ofLines_of_even hcounts hlines heven, bind_eq_error_iff]
  simp only [hrun, and_false, exists_false, or_false, mapM_eq_error_iff,
    convertOrigin_eq_error_iff, hnone]
  cases plan.warnForMissing with
  | true => simp
  | false => simp

theorem exists_fault_iff :
    (∃ fault, ofLines d type plan s = .error fault) ↔
      plan.warnForMissing = false ∧ ∃ origin ∈ origins plan.columns s (dataLines plan s),
        Field.value? d type origin.field = none := by
  rw [← exists_firstOf_iff]
  simp only [ofLines_eq_error_iff hcounts hlines heven]
  constructor
  · rintro ⟨_, hwarn, origin, _, hfirst, -⟩
    exact ⟨hwarn, origin, hfirst⟩
  · rintro ⟨hwarn, origin, hfirst⟩
    have hnone : Field.value? d type origin.field = none := hfirst.holds
    unfold Field.value? at hnone
    cases hconvert : Field.convert d type origin.field with
    | ok converted => simp [hconvert] at hnone
    | error cause => exact ⟨_, hwarn, origin, cause, hfirst, hconvert, rfl⟩

end Even

theorem exact_of_ofLines (hcounts : Countable plan.columns) (hlines : dataLines plan s ≠ [])
    {matrix : Matrix type} (hok : ofLines d type plan s = .ok matrix) :
    matrix.Exact d plan s := by
  have heven := even_of_ofLines hcounts hlines hok
  have hselected := selected_eq heven
  obtain ⟨hdata, hrows, hcols⟩ := data_of_ofLines hlines hok
  have hlength : (dataLines plan s).length =
      ((dataFields plan.columns s (dataLines plan s)).map
        (·.map (Field.valueOrMissing d type))).length := by
    rw [List.length_map, dataFields, List.length_map]
  have hwidth : ∀ entries ∈ (dataFields plan.columns s (dataLines plan s)).map
      (·.map (Field.valueOrMissing d type)),
      entries.length = (sourceColumns plan.columns (dataLines plan s)).length := by
    intro entries hentries
    obtain ⟨fields, hfields, rfl⟩ := List.mem_map.1 hentries
    rw [List.length_map, dataFields_width plan.columns s _ fields hfields]
  rw [hlength] at hdata
  rw [ofLines_of_even hcounts hlines heven] at hok
  obtain ⟨found, hfound, hok⟩ := bind_eq_ok_iff.1 hok
  obtain rfl := Except.ok.inj hok
  refine ⟨hrows, fun line hline => ?_, ?_, ?_, ?_, ?_⟩
  · rw [hselected line hline]
    exact hcols.symm
  · rw [hdata, size_arrange plan.order type.missing hwidth, ← hlength, hrows, hcols]
  -- the source is a field of the line, so the sum that finds it does not wrap
  · intro row line hline col source hsource
    have hmem := List.mem_of_getElem? hline
    rw [hdata, hrows, hcols, hlength,
      ← fieldIndex_of_lt (lt_fields_of_even heven hmem (List.mem_of_getElem? hsource))]
    refine getElem?_arrange plan.order type.missing hwidth
      ⟨((sourceColumns plan.columns (dataLines plan s)).map fun col =>
        s.stream.field (fieldIndex line col)).map (Field.valueOrMissing d type), ?_, ?_⟩
    · rw [List.getElem?_map, dataFields, List.getElem?_map, hline]
      rfl
    · rw [hselected line hmem] at hsource
      rw [List.getElem?_map, List.getElem?_map, hsource]
      rfl
  · exact remarks_of_run hfound
  · show (if (found.filterMap (·.2)).isEmpty then Status.success else .missingData) = _
    simp only [List.isEmpty_iff]
    rfl

end Matrix

end TypedTable.Csv
