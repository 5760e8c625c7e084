import TypedTable.Proofs.Csv.Filling
import TypedTable.Proofs.Selections
import TypedTable.Proofs.Table.Gaps

/-!
# Missing entries of loaded tables

A field that has no value is loaded as the missing value of its type, and a selection of complete
rows removes the rows that hold this value. So what it keeps of a loaded table is found in the
fields: the rows in which each field has a value, and not by chance the one for missing entries.
-/

set_option autoImplicit false

namespace TypedTable

namespace Csv

def Field.valueOrMissing (d : Dialect) (type : FieldType) (field : List UInt8) : type.Carrier :=
  (Field.value? d type field).getD type.missing

def Field.Present (d : Dialect) (type : ScalarType) (field : List UInt8) : Prop :=
  ∃ value : type.Carrier, Field.value? d (.scalar type) field = some value ∧
    type.isMissing value = false

instance (d : Dialect) (type : ScalarType) (field : List UInt8) :
    Decidable (Field.Present d type field) :=
  decidable_of_iff ((Field.value? d (.scalar type) field).any (!type.isMissing ·) = true) <| by
    unfold Field.Present
    cases Field.value? d (.scalar type) field <;> simp

theorem Field.present_str (d : Dialect) (field : List UInt8) : Present d .str field :=
  ⟨toText d field, rfl, rfl⟩

theorem Field.truth_ne_missing {d : Dialect} {field : List UInt8} {value : UInt8}
    (h : Field.value? d (.scalar .bool) field = some value) : value ≠ 255 := by
  unfold value? convert at h
  dsimp only at h
  cases hparsed : Numeral.parseTruth field with
  | none => simp [hparsed] at h
  | some truth =>
    simp only [hparsed, Option.some.injEq] at h
    subst h
    cases truth <;> decide

/-- What is loaded for a field is the missing value just if the field is not present. -/
theorem Field.isMissing_valueOrMissing {d : Dialect} {type : ScalarType}
    (ht : type = .int ∨ type = .bool ∨ type = .str) (field : List UInt8) :
    type.isMissing (valueOrMissing d (.scalar type) field) = false ↔ Present d type field := by
  unfold valueOrMissing Present
  cases hvalue : value? d (.scalar type) field with
  | some value => simp
  | none =>
    rcases ht with rfl | rfl | rfl
    · simp [FieldType.missing, ScalarType.isMissing]
    · simp [FieldType.missing, ScalarType.isMissing]
    · simp [value?, convert] at hvalue

namespace Matrix

variable {d : Dialect} {type : FieldType} {warn : Bool}

theorem value_of_entry {line index : Nat} {field : List UInt8}
    {found : type.Carrier × Option Remark} (hok : entry d type warn line field index = .ok found) :
    found.1 = Field.valueOrMissing d type field := by
  unfold Field.valueOrMissing Field.value?
  rw [entry] at hok
  cases hconverted : Field.convert d type field with
  | ok converted =>
    rw [hconverted] at hok
    exact (congrArg Prod.fst (Except.ok.inj hok)).symm
  | error fault =>
    rw [hconverted] at hok
    cases warn with
    | true => exact (congrArg Prod.fst (Except.ok.inj hok)).symm
    | false => cases hok

theorem values_of_row {s : Splitter} {sources : List Nat} {line : Line}
    {found : List (type.Carrier × Option Remark)}
    (hok : row d type warn s sources line = .ok found) :
    found.map (·.1) =
      (sources.map fun col => s.stream.field (fieldIndex line col)).map
        (Field.valueOrMissing d type) := by
  unfold row at hok
  have hvalues : found.map (·.1) = sources.zipIdx.map fun source =>
      Field.valueOrMissing d type (s.stream.field (fieldIndex line source.1)) :=
    map_result_of_mapM hok fun source _ entry hentry => value_of_entry hentry
  have hsources : (sources.zipIdx.map Prod.fst).map (fun col => s.stream.field (fieldIndex line col)) =
      sources.map fun col => s.stream.field (fieldIndex line col) := by
    rw [List.zipIdx_map_fst]
  rw [hvalues, ← hsources, List.map_map, List.map_map]
  rfl

/-- The data of a matrix with lines, whether or not entries may be missing. -/
theorem data_of_ofLines {plan : MatrixPlan} {s : Splitter} {matrix : Matrix type}
    (hlines : dataLines plan s ≠ []) (hok : ofLines d type plan s = .ok matrix) :
    matrix.data = arrange plan.order (dataLines plan s).length
        (sourceColumns plan.columns (dataLines plan s)).length type.missing
        ((dataFields plan.columns s (dataLines plan s)).map
          (·.map (Field.valueOrMissing d type))).flatten.toArray ∧
      matrix.rows = (dataLines plan s).length ∧
      matrix.cols = (sourceColumns plan.columns (dataLines plan s)).length := by
  have hempty : ¬ (dataLines plan s).isEmpty = true := by simpa using hlines
  have hof : ofLines d type plan s = _ := if_neg hempty
  rw [hof] at hok
  obtain ⟨u, -, hok⟩ := bind_eq_ok_iff.1 hok
  obtain ⟨rows, hrows, hok⟩ := bind_eq_ok_iff.1 hok
  cases hok
  have hvalues := map_result_of_mapM (g := List.map (·.1)) hrows
    fun line _ found hfound => values_of_row hfound
  refine ⟨?_, rfl, rfl⟩
  rw [List.map_flatten, hvalues, dataFields, List.map_map]
  rfl

end Matrix

namespace Reading

variable {type : FieldType} {s : Settings} {feed : Feed}

def values (type : FieldType) (s : Settings) (splitter : Splitter) : List (List type.Carrier) :=
  (fields s splitter).map (·.map (Field.valueOrMissing s.dialect type))

theorem length_values (type : FieldType) (s : Settings) (splitter : Splitter) :
    (values type s splitter).length = (lines s splitter).length :=
  (List.length_map _).trans (length_fields s splitter)

theorem width_values (type : FieldType) (s : Settings) (splitter : Splitter) :
    ∀ row ∈ values type s splitter, row.length = (sources s splitter).length := by
  intro row hrow
  obtain ⟨entries, hentries, rfl⟩ := List.mem_map.1 hrow
  rw [List.length_map, width_fields s splitter entries hentries]

theorem data_of_read {reading : Reading type} (hok : read type s (.ok feed) = .ok reading)
    (hdata : reading.status ≠ .noData) :
    ∃ splitter, split s feed = .ok splitter ∧
      reading.rows = (lines s splitter).length ∧ reading.cols = (sources s splitter).length ∧
      reading.data = Matrix.arrange s.order (lines s splitter).length (sources s splitter).length
        type.missing (values type s splitter).flatten.toArray := by
  obtain ⟨u, -, hok⟩ := bind_eq_ok_iff.1 hok
  obtain ⟨found, hfound, hok⟩ := bind_eq_ok_iff.1 hok
  cases hfound
  obtain ⟨splitter, hsplit, hok⟩ := bind_eq_ok_iff.1 hok
  rw [ofSplitter_eq] at hok
  obtain ⟨matrix, hmatrix, hok⟩ := bind_eq_ok_iff.1 hok
  obtain ⟨names, -, hok⟩ := bind_eq_ok_iff.1 hok
  cases hok
  by_cases hlines : lines s splitter = []
  · have hempty : (Matrix.dataLines s.plan splitter).isEmpty = true := by
      rw [List.isEmpty_iff]
      exact hlines
    have hof : Matrix.ofLines s.dialect type s.plan splitter = _ := if_pos hempty
    rw [hof] at hmatrix
    cases hmatrix
    exact absurd rfl hdata
  · obtain ⟨hvalues, hrows, hcols⟩ := Matrix.data_of_ofLines hlines hmatrix
    exact ⟨splitter, hsplit, hrows, hcols, hvalues⟩

end Reading

namespace Loading

open Reading

variable {heap : Heap} {table later : Table} {type : ScalarType} {s : Settings} {feed : Feed}

theorem adopt_fits {rows cols : Nat} {order : Order} {cells : Array type.Carrier}
    (hok : adopt table rows cols order cells = .ok later) :
    0 < rows ∧ rows ≤ wordLimit ∧ cols ≤ wordLimit := by
  obtain ⟨u, -, hok⟩ := bind_eq_ok_iff.1 (mapError_eq_ok_iff.1 hok)
  obtain ⟨v, -, hok⟩ := bind_eq_ok_iff.1 hok
  obtain ⟨dense, hdense, -⟩ := bind_eq_ok_iff.1 hok
  unfold Dense.make at hdense
  split at hdense
  · cases hdense
  next hpos =>
    split at hdense
    · cases hdense
    next hlimit =>
      have hr : rows ≤ rows * cols := Nat.le_mul_of_pos_right rows (by omega)
      have hc : cols ≤ rows * cols := Nat.le_mul_of_pos_left cols (by omega)
      omega

variable {width : Nat} {values : List (List type.Carrier)}

/-- A row of a table of values has a gap just if one of its values is the missing one. -/
theorem hasGap_valueSheet (h : table.Represents heap (valueSheet type width values))
    (hw : ∀ entries ∈ values, entries.length = width) {key : String} {row : Nat}
    (hr : row < values.length) :
    table.HasGap heap key true row ↔ ∃ value ∈ values[row], type.isMissing value = true := by
  have hp := h.pending_eq_none rfl
  have hrow : values[row].length = width := hw _ (List.getElem_mem hr)
  have hcols : table.cols = width := by simp [h.cols, valueSheet]
  constructor
  · rintro ⟨col, found, value, -, hget, hmissing⟩
    obtain ⟨place, hplace, -⟩ := bind_eq_ok_iff.1 hget
    obtain ⟨-, -, hc, -⟩ := h.consistent.located_of_ok hplace
    rw [hcols] at hc
    have hheld := h.consistent.holds_of_get (get_valueSheet h hr hc)
    obtain ⟨rfl, hvalue⟩ := Cell.mk.inj (Option.some.inj
      ((h.consistent.holds_of_get hget).symm.trans hheld))
    rw [eq_of_heq hvalue, List.getD_eq_getElem _ _ (hrow ▸ hc)] at hmissing
    exact ⟨_, List.getElem_mem (hrow ▸ hc), hmissing⟩
  · rintro ⟨value, hmem, hmissing⟩
    obtain ⟨col, hcol, rfl⟩ := List.mem_iff_getElem.1 hmem
    have hget := get_valueSheet h hr (hrow ▸ hcol)
    rw [List.getD_eq_getElem _ _ hcol] at hget
    exact ⟨col, type, _, .inl rfl, hget, hmissing⟩

/-- What a load of one type with data leaves is the sheet of the values of the fields. -/
theorem represents_loadTyped (h : table.Represents heap {}) {status : Status}
    {names : Option (List String)} (hok : loadTyped type table s feed = .ok (later, status, names))
    (hr : 0 < later.rows) :
    ∃ splitter, split s feed = .ok splitter ∧
      later.Represents heap (valueSheet type (sources s splitter).length
        (Reading.values (.scalar type) s splitter)) ∧
      later.selections = table.selections ∧ later.rows ≤ wordLimit ∧ later.cols ≤ wordLimit := by
  obtain ⟨reading, hread, hok⟩ := bind_eq_ok_iff.1 hok
  split at hok
  next =>
    cases hok
    rw [h.rows_eq (h.pending_eq_none rfl)] at hr
    exact absurd hr (Nat.lt_irrefl 0)
  next hdata =>
    obtain ⟨filled, hfilled, hok⟩ := bind_eq_ok_iff.1 hok
    cases hok
    obtain ⟨splitter, hsplit, hrows, hcols, hvalues⟩ := data_of_read hread hdata
    have hlength := length_values (.scalar type) s splitter
    rw [hrows, hcols, hvalues, ← hlength] at hfilled
    have hrepresents := represents_values h (width_values (.scalar type) s splitter) hfilled
    obtain ⟨-, hfits, hfits'⟩ := adopt_fits hfilled
    refine ⟨splitter, hsplit, hrepresents, ?_, ?_, ?_⟩
    · rw [adopt_eq heap] at hfilled
      exact h.consistent.selections_appendColumns (mapError_eq_ok_iff.1 hfilled)
    · rw [hrepresents.rows_eq (hrepresents.pending_eq_none rfl)]
      exact hfits
    · simpa [hrepresents.cols, valueSheet] using hfits'

end Loading

open Reading Loading

/-- What a selection of complete rows keeps of a table that was loaded with one type. -/
theorem load_keeps_present {s : Settings} {feed : Feed} {type : ScalarType}
    (ht : type = .int ∨ type = .bool ∨ type = .str) (hs : s.loadType = .fixed type)
    {table : Table} {status : Status} (hok : load .empty s (.ok feed) = .ok (table, status))
    (hr : 0 < table.rows) (heap : Heap) (key : String) :
    ∃ splitter rows, split s feed = .ok splitter ∧ table.rows = (fields s splitter).length ∧
      table.selectNonMissing heap key true = .ok (table.withSelection key { rows := rows }) ∧
      ∀ row, row ∈ rows ↔ ∃ entries, (fields s splitter)[row]? = some entries ∧
        ∀ field ∈ entries, Field.Present s.dialect type field := by
  have hempty := Table.Represents.empty heap
  obtain ⟨filled, names, hfilled, hlabeled⟩ := (load_eq_ok_iff hempty).1 hok
  rw [hs] at hfilled
  obtain ⟨labels, htable⟩ := labelColumns_labels hlabeled
  have htable : table = { filled with labels := labels } := htable
  have hfilledRows : filled.rows = table.rows := by rw [htable]
  have hfilledCols : filled.cols = table.cols := by rw [htable]
  have hfilledSelections : filled.selections = table.selections := by rw [htable]
  obtain ⟨splitter, hsplit, hsheet, hselections, hw, hw'⟩ :=
    represents_loadTyped hempty hfilled (hfilledRows ▸ hr)
  have hlater : table.Represents heap _ := represents_labelColumns hsheet hlabeled
  have hp := hlater.pending_eq_none rfl
  have hlength : (Reading.values (.scalar type) s splitter).length = (fields s splitter).length :=
    List.length_map _
  have hrows : table.rows = (fields s splitter).length := (hlater.rows_eq hp).trans hlength
  have hnew : table.selections.findOrNew key = {} := by
    rw [← hfilledSelections, hselections]
    rfl
  obtain ⟨rows, hselected, hmem⟩ := hlater.consistent.selectNonMissing_of_complete hp hr
    (hfilledRows ▸ hw) (hfilledCols ▸ hw') key true
  rw [hnew] at hselected hmem
  refine ⟨splitter, rows, hsplit, hrows, hselected, fun row => ?_⟩
  have hall : row ∈ ({} : IndexSet).orAll table.rows ↔ row < (fields s splitter).length := by
    rw [← hrows]
    exact List.mem_range
  rw [hmem, hall]
  by_cases hrow : row < (fields s splitter).length
  · have hvalues : row < (Reading.values (.scalar type) s splitter).length := hlength ▸ hrow
    rw [hasGap_valueSheet hlater (width_values (.scalar type) s splitter) hvalues,
      List.getElem?_eq_getElem hrow]
    simp [Reading.values, hrow, ← Field.isMissing_valueOrMissing ht]
  · simp [hrow]

end Csv

namespace Catalog

open Csv

variable {catalog loaded : Catalog} {number : Nat} {s : Settings} {feed : Feed} {type : ScalarType}

theorem Reachable.perform_load_eq_ok (h : catalog.Reachable) {status : Status}
    (hload : catalog.perform (.load number s (.ok feed)) = (loaded, .ok status)) :
    ∃ table, load .empty s (.ok feed) = .ok (table, status) ∧
      loaded = catalog.put number table := by
  unfold Catalog.perform at hload
  dsimp only at hload
  cases hread : load (catalog.table number) s (.ok feed) with
  | error halted =>
    rw [hread] at hload
    cases (Prod.mk.inj hload).2
  | ok result =>
    have hempty : catalog.table number = .empty := by
      rcases h.emptyOrWide number with hempty | hw
      · exact hempty
      · obtain ⟨fault, hrefused⟩ := load_of_cols s (.ok feed) hw
        rw [hrefused] at hread
        cases hread
    rw [hread] at hload
    obtain ⟨hloaded, hstatus⟩ := Prod.mk.inj hload
    refine ⟨result.1, ?_, hloaded.symm⟩
    rw [← hempty, hread, ← Except.ok.inj hstatus]

/-- After a load of integers, truth values or texts, a selection of complete rows keeps just the rows
in which every field has a value other than the one for missing entries. Of texts it keeps all rows.
No truth value is the one for missing entries, but an integer may be. -/
theorem Reachable.present_rows_kept (h : catalog.Reachable)
    (ht : type = .int ∨ type = .bool ∨ type = .str) (hs : s.loadType = .fixed type)
    {status : Status} (hload : catalog.perform (.load number s (.ok feed)) = (loaded, .ok status))
    (hr : 0 < (loaded.table number).rows) (key : String) :
    (∃ filtered splitter selection,
      loaded.perform (.selectNonMissing number key true) = (filtered, .ok .success) ∧
      (filtered.table number).selections.find? key = some selection ∧
      Reading.split s feed = .ok splitter ∧
      (loaded.table number).rows = (Reading.fields s splitter).length ∧
      (∀ row, row ∈ selection.rows ↔ ∃ entries, (Reading.fields s splitter)[row]? = some entries ∧
        ∀ field ∈ entries, Field.Present s.dialect type field) ∧
      (type = .str → ∀ row < (loaded.table number).rows, row ∈ selection.rows)) ∧
    (∀ (d : Dialect) (field : List UInt8) (value : UInt8),
      Field.value? d (.scalar .bool) field = some value → value ≠ 255) ∧
    ∃ field, Field.value? {} (.scalar .int) field = some Int64.maxValue := by
  refine ⟨?_, fun _ _ _ => Field.truth_ne_missing, ?_⟩
  · obtain ⟨table, hread, rfl⟩ := h.perform_load_eq_ok hload
    rw [table_put_self] at hr ⊢
    obtain ⟨splitter, rows, hsplit, hrows, hselected, hkept⟩ :=
      load_keeps_present ht hs hread hr catalog.heap key
    refine ⟨(catalog.put number table).put number (table.withSelection key { rows := rows }),
      splitter, { rows := rows }, ?_, ?_, hsplit, hrows, hkept, ?_⟩
    · unfold Catalog.perform
      dsimp only
      rw [table_put_self]
      exact congrArg (Catalog.replace _ number) hselected
    · rw [table_put_self]
      exact Keyed.find?_put_self _ key _
    · rintro rfl row hrow
      rw [hrows] at hrow
      exact (hkept row).2 ⟨_, List.getElem?_eq_getElem hrow,
        fun field _ => Field.present_str s.dialect field⟩
  · exact ⟨[57, 50, 50, 51, 51, 55, 50, 48, 51, 54, 56, 53, 52, 55, 55, 53, 56, 48, 55],
      by decide +kernel⟩

/-- Four rows of two fields: in the second one a field is no number, in the third one it is the
number that stands for missing entries. -/
def unevenFields : List (List (List UInt8)) :=
  [[[49], [50]], [[120], [51]],
    [[57, 50, 50, 51, 51, 55, 50, 48, 51, 54, 56, 53, 52, 55, 55, 53, 56, 48, 55], [52]],
    [[53], [54]]]

def unevenLines : Feed :=
  .memory (unevenFields.flatMap fun fields => [44].intercalate fields ++ [10])

def permissive : Settings := { loadType := .fixed .int, warnForMissing := true }

theorem present_rows_kept_uneven :
    ∃ loaded filtered selection,
      empty.perform (.load 0 permissive (.ok unevenLines)) = (loaded, .ok .missingData) ∧
      loaded.perform (.selectNonMissing 0 "complete" true) = (filtered, .ok .success) ∧
      (filtered.table 0).selections.find? "complete" = some selection ∧
      (0 ∈ selection.rows ∧ 1 ∉ selection.rows) ∧ (2 ∉ selection.rows ∧ 3 ∈ selection.rows) := by
  have hload : empty.perform (.load 0 permissive (.ok unevenLines)) = (_, .ok .missingData) :=
    Prod.ext rfl (by decide +kernel)
  obtain ⟨⟨filtered, splitter, selection, hselected, hfound, hsplit, -, hkept, -⟩, -⟩ :=
    Reachable.present_rows_kept .empty (.inl rfl) rfl hload (by decide +kernel) "complete"
  have hfields : Reading.fields permissive splitter = unevenFields := by
    have hread : (Reading.split permissive unevenLines).map (Reading.fields permissive) =
        .ok unevenFields := by decide +kernel
    rw [hsplit] at hread
    exact Except.ok.inj hread
  simp only [hfields] at hkept
  refine ⟨_, filtered, selection, hload, hselected, hfound, ⟨?_, ?_⟩, ?_, ?_⟩
  · exact (hkept 0).2 ⟨_, rfl, by decide +kernel⟩
  · intro hin
    obtain ⟨entries, hentries, hall⟩ := (hkept 1).1 hin
    cases hentries
    exact absurd hall (by decide +kernel)
  · intro hin
    obtain ⟨entries, hentries, hall⟩ := (hkept 2).1 hin
    cases hentries
    exact absurd hall (by decide +kernel)
  · exact (hkept 3).2 ⟨_, rfl, by decide +kernel⟩

end Catalog

end TypedTable
