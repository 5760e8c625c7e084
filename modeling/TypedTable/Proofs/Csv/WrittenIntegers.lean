import TypedTable.Proofs.Csv.Filling
import TypedTable.Proofs.Csv.IntegerFields
import TypedTable.Proofs.Csv.RoundTrip

/-!
# Written integers are read back

Integers are written in decimal, with a comma between two of a row and a line feed behind each row.
The text is read back as a matrix in either order and as columns of a table, whether integers are
asked for or found.
-/

set_option autoImplicit false

namespace TypedTable.Csv

def decimalBytes (value : Int64) : List UInt8 := CellValue.bytes (toString value)

def writeIntegers (values : List (List Int64)) : List UInt8 :=
  values.flatMap fun row => [44].intercalate (row.map decimalBytes) ++ [10]

def matrixRows (rows cols : Nat) (entry : Nat → Nat → Int64) : List (List Int64) :=
  (List.range rows).map fun row => (List.range cols).map (entry row)

section Text

variable {values : List (List Int64)} {row : List Int64}

theorem decimalBytes_eq (value : Int64) :
    decimalBytes value =
      if value.toInt < 0 then 45 :: Numeral.digitBytes value.toInt.natAbs
      else Numeral.digitBytes value.toInt.natAbs := Numeral.bytes_toString value.toInt

theorem decimalBytes_ne_nil (value : Int64) : decimalBytes value ≠ [] := by
  rw [decimalBytes_eq]
  split
  · simp
  · exact Numeral.digitBytes_ne_nil _

theorem mem_decimalBytes {value : Int64} {byte : UInt8} (h : byte ∈ decimalBytes value) :
    byte = 45 ∨ 48 ≤ byte.toNat ∧ byte.toNat ≤ 57 := by
  rw [decimalBytes_eq] at h
  split at h
  · rcases List.mem_cons.1 h with rfl | h
    · exact .inl rfl
    · exact .inr (Numeral.isDigit_iff.1 (Numeral.isDigit_of_mem_digitBytes h))
  · exact .inr (Numeral.isDigit_iff.1 (Numeral.isDigit_of_mem_digitBytes h))

theorem has_decimalBytes (value : Int64) :
    Field.Has {} (.scalar .int) (decimalBytes value) value := by
  have hfits : IntegerType.int64.Fits {} (IntegerType.int64.toInt value) :=
    ⟨Int64.minValue_le_toInt value, Int64.toInt_le value⟩
  have htext : Numeral.DecimalText ({} : Dialect).thousands (IntegerType.int64.toInt value)
      (decimalBytes value) := Numeral.decimalText_toString none value.toInt
  have hconvert : Field.convert {} (.scalar .int) (decimalBytes value) = .ok ⟨value, true⟩ :=
    (Field.conversion_of_decimalText hfits htext).convert_eq (by decide) (by decide) (by simp)
  rw [Field.Has, Field.value?, hconvert]

def writtenRow (row : List Int64) : WrittenRow :=
  { fields := row.map fun value => ⟨decimalBytes value, false⟩
    ending := .feed }

theorem values_writtenRows (values : List (List Int64)) :
    (values.map writtenRow).map (·.values) = values.map (·.map decimalBytes) := by
  rw [List.map_map]
  apply List.map_congr_left
  intro row _
  rw [Function.comp_apply, WrittenRow.values, writtenRow, List.map_map]
  rfl

theorem writable_default : ({} : Dialect).Writable where
  quotes := by decide
  doubles := rfl
  delimited := rfl
  initialSpace := rfl
  emptyLines := rfl
  skippedLines := rfl
  skippedFirstLines := rfl
  distinct := by decide

theorem allowed_writtenRow (hn : row ≠ []) : (writtenRow row).Allowed {} row.length where
  width := List.length_map _
  fields := by
    intro field hm
    obtain ⟨value, -, rfl⟩ := List.mem_map.1 hm
    intro _ byte hbyte hspecial
    have hrange := mem_decimalBytes hbyte
    have hspecial : byte = 44 ∨ byte = 34 ∨ byte = 35 ∨ byte = 10 ∨ byte = 13 := by
      simpa [Dialect.specialBytes, Dialect.endingBytes] using hspecial
    rcases hspecial with rfl | rfl | rfl | rfl | rfl <;> simp at hrange
  filled := by
    intro hempty
    cases row with
    | nil => exact hn rfl
    | cons value later =>
      have hfirst := (List.cons.inj hempty).1
      exact decimalBytes_ne_nil value (congrArg WrittenField.bytes hfirst)

theorem writeFields_integers (row : List Int64) :
    ({} : Dialect).writeFields (writtenRow row).fields =
      [44].intercalate (row.map decimalBytes) := by
  induction row with
  | nil => rfl
  | cons value later ih =>
    cases later with
    | nil => exact List.intercalate_singleton.symm
    | cons next later =>
      rw [List.map_cons, List.map_cons, List.intercalate_cons_cons, ← List.map_cons, ← ih,
        List.append_assoc]
      rfl

theorem write_writtenRows (values : List (List Int64)) :
    ({} : Dialect).write (values.map writtenRow) = writeIntegers values := by
  rw [Dialect.write, writeIntegers, List.flatMap_map]
  apply List.flatMap_congr
  intro row _
  rw [Dialect.writeRow, writeFields_integers]
  rfl

theorem length_le_intercalate (row : List Int64) :
    row.length ≤ ([44].intercalate (row.map decimalBytes)).length := by
  induction row with
  | nil => exact Nat.zero_le _
  | cons value later ih =>
    have hvalue := List.length_pos_iff.2 (decimalBytes_ne_nil value)
    cases later with
    | nil =>
      rw [List.map_singleton, List.intercalate_singleton]
      exact hvalue
    | cons next later =>
      rw [List.map_cons] at ih
      rw [List.map_cons, List.map_cons, List.intercalate_cons_cons, List.length_append,
        List.length_append, List.length_cons]
      omega

theorem cells_le_length {cols : Nat} (hw : ∀ row ∈ values, row.length = cols) :
    values.length * cols ≤ (writeIntegers values).length := by
  induction values with
  | nil => simp
  | cons row later ih =>
    have hrow := length_le_intercalate row
    have hlater := ih fun row h => hw row (by simp [h])
    rw [hw row (by simp)] at hrow
    rw [writeIntegers, List.flatMap_cons, ← writeIntegers, List.length_append, List.length_append,
      List.length_cons, Nat.succ_mul]
    omega

theorem not_marked (hn : ∀ row ∈ values, row ≠ []) : ¬ byteOrderMark <+: writeIntegers values := by
  cases values with
  | nil => decide
  | cons row later =>
    cases row with
    | nil => exact absurd rfl (hn [] (by simp))
    | cons value rest =>
      obtain ⟨byte, more, hbyte⟩ := List.exists_cons_of_ne_nil (decimalBytes_ne_nil value)
      have hrow : ∃ tail, [44].intercalate ((value :: rest).map decimalBytes) =
          byte :: tail := by
        cases rest with
        | nil => exact ⟨more, List.intercalate_singleton.trans hbyte⟩
        | cons next rest =>
          rw [List.map_cons, List.map_cons, List.intercalate_cons_cons, hbyte]
          exact ⟨_, rfl⟩
      obtain ⟨tail, htail⟩ := hrow
      intro hmark
      rw [writeIntegers, List.flatMap_cons, htail] at hmark
      have hfirst := (List.cons_prefix_cons.1 hmark).1
      have hmem : byte ∈ decimalBytes value := hbyte ▸ List.mem_cons_self
      have hrange := mem_decimalBytes hmem
      subst hfirst
      simp at hrange

end Text

namespace Splitter

variable {s : Splitter} {rows : List (List (List UInt8))} {width : Nat}

theorem Holds.fields_eq (h : s.Holds rows [] []) (hw : ∀ row ∈ rows, row.length = width) :
    ∀ line ∈ s.lines.toList, line.fields = width := by
  intro line hm
  obtain ⟨index, hi, rfl⟩ := List.mem_iff_getElem.1 hm
  have hs : index < s.lines.size := by simpa using hi
  have hr : index < rows.length := h.count ▸ hs
  rw [Array.getElem_toList, (h.line index hs hr).2, hw _ (List.getElem_mem hr)]

end Splitter

open Reading Loading

theorem Loading.adopt_empty {heap : Heap} {table : Table} {type : ScalarType} {rows cols : Nat}
    (h : table.Represents heap {}) (hr : 0 < rows) (hc : 0 < cols) (hlimit : rows * cols < wordLimit)
    (order : Order) {cells : Array type.Carrier} (hsize : rows * cols ≤ cells.size) :
    ∃ later, adopt table rows cols order cells = .ok later := by
  have hp := h.pending_eq_none rfl
  have hcols : table.cols = 0 := h.cols
  have hfits : cols < wordLimit := Nat.lt_of_le_of_lt (Nat.le_mul_of_pos_left cols hr) hlimit
  have hcomplete : table.checkComplete = .ok () := Table.checkComplete_eq_ok.2 hp
  have hrows : require (0 < table.cols → rows = table.rows)
      (.dimensionMismatch table.rows rows) = .ok () := if_pos fun hpos => by omega
  obtain ⟨dense, hdense⟩ : ∃ dense, Dense.make {} rows cols order (.adopted cells) = .ok dense := by
    have hfull : ¬ ((Storage.adopted cells).cells {}).size < rows * cols := Nat.not_lt.2 hsize
    unfold Dense.make
    rw [if_neg (by omega), if_neg (by omega), if_neg hfull]
    exact ⟨_, rfl⟩
  obtain ⟨span, hspan⟩ : ∃ span, Interval.ofSize table.cols cols = .ok span := by
    rw [Interval.ofSize, if_neg (by omega), if_neg (by omega)]
    exact ⟨_, rfl⟩
  have hchains := RangeMap.insert_last h.consistent.sorted span table.arena.nodes.size
    fun entry hm => absurd (h.consistent.lt_cols hm) (by omega)
  refine ⟨table.addColumns ⟨type, dense⟩
    ⟨table.chains.entries ++ [(span, table.arena.nodes.size)]⟩, mapError_eq_ok_iff.2 ?_⟩
  simp only [Table.appendColumns, hcomplete, hrows, hdense, hspan, hchains, refuse_ok, within_ok,
    ok_bind, pure_eq_ok]

section Survival

variable {heap : Heap} {table : Table} {values : List (List Int64)} {cols : Nat}
  {splitter : Splitter} {order : Order} {chunkSize : Nat}

theorem split_integers (hc : 0 < cols) (hw : ∀ row ∈ values, row.length = cols) {s : Settings}
    (hs : s.dialect = {}) :
    ∃ splitter, split s (.memory (writeIntegers values)) = .ok splitter ∧
      splitter.Clean (values.map (·.map decimalBytes)) [] [] := by
  have hne : ∀ row ∈ values, row ≠ [] := by
    intro row hm hnil
    have hlength := hw row hm
    rw [hnil, List.length_nil] at hlength
    omega
  have ha : ∀ row ∈ values.map writtenRow, row.Allowed {} cols := by
    intro row hm
    obtain ⟨entries, hmem, rfl⟩ := List.mem_map.1 hm
    exact hw entries hmem ▸ allowed_writtenRow (hne entries hmem)
  obtain ⟨t, ht, hbetween⟩ := Splitter.readAll_write writable_default hc ha (List.forall_mem_nil _)
    (.inl rfl) (Splitter.between_start {} s.headerLines s.columns.isSome)
  obtain ⟨u, hu, -, hclean⟩ := Splitter.finish_between hbetween
  rw [write_writtenRows] at ht
  rw [List.nil_append, values_writtenRows] at hclean
  have houtcome := Session.tokenizeAll_start {} s.headerLines s.columns.isSome s.chunkSize
    (show (Feed.memory (writeIntegers values)).failures = 0 from rfl)
  have hbytes : (Feed.memory (writeIntegers values)).content = writeIntegers values := rfl
  rw [hbytes, Session.withoutMark, if_neg (not_marked hne), ht, ok_bind, hu, ← hs] at houtcome
  obtain ⟨hfault, hsplitter⟩ := Prod.mk.inj houtcome
  have hsplit : split s (.memory (writeIntegers values)) = .ok _ := split_eq_ok hfault
  refine ⟨u, hsplit.trans (congrArg Except.ok hsplitter), hclean⟩

def plainSettings (type : LoadType) (order : Order) (chunkSize : Nat) : Settings :=
  { loadType := type, order := order, chunkSize := chunkSize }

theorem sameIntegers_plain (type : LoadType) (order : Order) (chunkSize : Nat) :
    SameIntegers (plainSettings type order chunkSize) where
  complete := rfl
  integers := rfl
  thousands byte h := by cases h

structure SplitIntegers (values : List (List Int64)) (cols : Nat) (splitter : Splitter) : Prop where
  rows_ne : values ≠ []
  width : ∀ row ∈ values, row.length = cols
  clean : splitter.Clean (values.map (·.map decimalBytes)) [] []

namespace SplitIntegers

variable {type : LoadType}

theorem lines_length (h : SplitIntegers values cols splitter) :
    (lines (plainSettings type order chunkSize) splitter).length = values.length := by
  have hcount := h.clean.count
  rw [List.length_map] at hcount
  exact Array.length_toList.trans hcount

theorem lines_ne_nil (h : SplitIntegers values cols splitter) :
    lines (plainSettings type order chunkSize) splitter ≠ [] := by
  have hpos := List.length_pos_iff.2 h.rows_ne
  rw [← h.lines_length] at hpos
  exact List.length_pos_iff.1 hpos

theorem line_fields (h : SplitIntegers values cols splitter) :
    ∀ line ∈ lines (plainSettings type order chunkSize) splitter, line.fields = cols := by
  refine h.clean.toHolds.fields_eq fun row hm => ?_
  obtain ⟨entries, hmem, rfl⟩ := List.mem_map.1 hm
  rw [List.length_map, h.width entries hmem]

theorem sources_eq (h : SplitIntegers values cols splitter) :
    sources (plainSettings type order chunkSize) splitter = List.range cols :=
  Matrix.sourceColumns_even h.lines_ne_nil h.line_fields

theorem sources_length (h : SplitIntegers values cols splitter) :
    (sources (plainSettings type order chunkSize) splitter).length = cols := by
  rw [h.sources_eq, List.length_range]

theorem reads (h : SplitIntegers values cols splitter) :
    Matrix.Reads {} (.scalar .int) (fields (plainSettings type order chunkSize) splitter) values := by
  have hfields : fields (plainSettings type order chunkSize) splitter =
      values.map (·.map decimalBytes) :=
    (Matrix.dataFields_even h.lines_ne_nil h.line_fields).trans h.clean.toHolds.rows_eq
  rw [hfields, Matrix.Reads, List.forall₂_map_left_iff, List.forall₂_same]
  intro row _
  rw [List.forall₂_map_left_iff, List.forall₂_same]
  exact fun value _ => has_decimalBytes value

theorem ready (h : SplitIntegers values cols splitter) (hchunk : chunkSize ≠ 0) :
    Ready (plainSettings type order chunkSize) splitter none where
  valid := by
    have hdialect : ({} : Dialect).validate = .ok () := by decide
    rw [Settings.check, mapError_eq_ok_iff]
    exact bind_eq_ok_iff.2 ⟨(), hdialect, if_neg hchunk⟩
  width := by
    rw [show (plainSettings type order chunkSize).columns = none from rfl,
      Matrix.neededFields_even h.lines_ne_nil h.line_fields]
    exact Matrix.checkWidth_even h.line_fields
  named := rfl

theorem status_eq (h : SplitIntegers values cols splitter) : splitStatus splitter = .success := by
  have hcounted : splitter.fileLines = splitter.lines.size :=
    h.clean.counted.trans h.clean.count.symm
  rw [splitStatus, if_neg (not_not.2 hcounted)]

theorem read_eq (h : SplitIntegers values cols splitter) (hchunk : chunkSize ≠ 0) {feed : Feed}
    (hsplit : split (plainSettings type order chunkSize) feed = .ok splitter) :
    read (.scalar .int) (plainSettings type order chunkSize) (.ok feed) =
      .ok (ofRows (.scalar .int) (plainSettings type order chunkSize) splitter none values) :=
  (read_eq_ok_iff hsplit h.lines_ne_nil rfl).2 ⟨none, values, h.ready hchunk, h.reads, rfl⟩

theorem size_data (h : SplitIntegers values cols splitter) :
    (ofRows (.scalar .int) (plainSettings type order chunkSize) splitter none values).data.size =
      values.length * cols := by
  have hsize := Matrix.size_arrange order (FieldType.scalar .int).missing h.width
  rw [ofRows, h.lines_length, h.sources_length]
  exact hsize

theorem getElem?_data (h : SplitIntegers values cols splitter) {rows row col : Nat} {value : Int64}
    (hrows : values.length = rows) (hcell : Matrix.CellAt values row col value) :
    (ofRows (.scalar .int) (plainSettings type order chunkSize) splitter none
      values).data[order.offset row col rows cols]? = some value := by
  have hplace := Matrix.getElem?_arrange order (FieldType.scalar .int).missing h.width hcell
  rw [ofRows, h.lines_length, h.sources_length, ← hrows]
  exact hplace

theorem remarks_eq (h : SplitIntegers values cols splitter) :
    (ofRows (.scalar .int) (plainSettings type order chunkSize) splitter none values).remarks =
      [] := by
  have hcounted : splitter.fileLines = splitter.lines.size :=
    h.clean.counted.trans h.clean.count.symm
  rw [ofRows, h.clean.quiet, ignoredLines, if_neg (not_not.2 hcounted)]
  rfl

theorem load_int (h : SplitIntegers values cols splitter) (hchunk : chunkSize ≠ 0)
    (ht : table.Represents heap {}) (hc : 0 < cols) (hlimit : values.length * cols < wordLimit)
    {feed : Feed}
    (hsplit : split (plainSettings (.fixed .int) order chunkSize) feed = .ok splitter) :
    ∃ filled, load table (plainSettings (.fixed .int) order chunkSize) (.ok feed) =
        .ok (filled, .success) ∧
      filled.Represents heap (intSheet cols values) := by
  have hrows := List.length_pos_iff.2 h.rows_ne
  have hsize := Matrix.size_arrange order (FieldType.scalar .int).missing h.width
  obtain ⟨filled, hfilled⟩ := @adopt_empty heap table .int values.length cols ht hrows hc hlimit
    order _ (Nat.le_of_eq hsize.symm)
  refine ⟨filled, (load_eq_ok_iff ht).2 ⟨filled, none, ?_, rfl⟩, represents_typed ht h.width hfilled⟩
  refine (loadTyped_eq_ok_iff hsplit h.lines_ne_nil rfl).2
    ⟨values, h.ready hchunk, h.reads, ?_, h.status_eq.symm⟩
  rw [h.lines_length, h.sources_length]
  exact hfilled

end SplitIntegers

theorem length_matrixRows (rows cols : Nat) (entry : Nat → Nat → Int64) :
    (matrixRows rows cols entry).length = rows := by
  rw [matrixRows, List.length_map, List.length_range]

theorem width_matrixRows (rows cols : Nat) (entry : Nat → Nat → Int64) :
    ∀ row ∈ matrixRows rows cols entry, row.length = cols := by
  intro row hm
  obtain ⟨index, -, rfl⟩ := List.mem_map.1 hm
  rw [List.length_map, List.length_range]

theorem cellAt_matrixRows {rows cols row col : Nat} (entry : Nat → Nat → Int64) (hr : row < rows)
    (hc : col < cols) : Matrix.CellAt (matrixRows rows cols entry) row col (entry row col) :=
  ⟨(List.range cols).map (entry row), by simp [matrixRows, hr], by simp [hc]⟩

theorem answers_matrixRows {rows : Nat} {entry : Nat → Nat → Int64}
    (h : table.Represents heap (intSheet cols (matrixRows rows cols entry))) :
    table.rows = rows ∧ table.cols = cols ∧ (∀ col < cols, table.columnType col = .ok .int) ∧
      ∀ row < rows, ∀ col < cols, table.get heap .int row col = .ok (entry row col) := by
  refine ⟨?_, h.cols.trans length_intSheet, fun col hcol => ?_, fun row hrow col hcol => ?_⟩
  · exact (h.rows_eq (h.pending_eq_none rfl)).trans (length_matrixRows rows cols entry)
  · exact columnType_intSheet h hcol
  · have hlength : row < (matrixRows rows cols entry).length :=
      (length_matrixRows rows cols entry).symm ▸ hrow
    rw [get_intSheet h hlength hcol]
    simp [matrixRows, hcol]

/-- A matrix of integers survives being written and read, as a matrix in either order and as a table
whose type is given or found. -/
theorem matrix_survives (ht : table.Represents heap {}) (rows cols : Nat)
    (entry : Nat → Nat → Int64) (hr : 0 < rows) (hc : 0 < cols)
    (hmemory : (writeIntegers (matrixRows rows cols entry)).length < wordLimit) (order : Order)
    (chunkSize : Nat) (hchunk : chunkSize ≠ 0) :
    let s : Settings := { order := order, chunkSize := chunkSize }
    let bytes := writeIntegers (matrixRows rows cols entry)
    (∃ reading, readBytes (.scalar .int) s bytes = .ok reading ∧
      reading.rows = rows ∧ reading.cols = cols ∧ reading.data.size = rows * cols ∧
      (∀ row < rows, ∀ col < cols,
        reading.data[order.offset row col rows cols]? = some (entry row col)) ∧
      reading.status = .success ∧ reading.remarks = []) ∧
    ∀ type ∈ ([.fixed .int, .auto] : List LoadType),
      ∃ filled, loadBytes table { s with loadType := type } bytes = .ok (filled, .success) ∧
        filled.rows = rows ∧ filled.cols = cols ∧
        (∀ col < cols, filled.columnType col = .ok .int) ∧
        ∀ row < rows, ∀ col < cols, filled.get heap .int row col = .ok (entry row col) := by
  intro s bytes
  have hlength := length_matrixRows rows cols entry
  have hwidth := width_matrixRows rows cols entry
  have hne : matrixRows rows cols entry ≠ [] := List.length_pos_iff.1 (hlength.symm ▸ hr)
  have hlimit : (matrixRows rows cols entry).length * cols < wordLimit :=
    Nat.lt_of_le_of_lt (cells_le_length hwidth) hmemory
  obtain ⟨splitter, hsplit, hclean⟩ := split_integers hc hwidth (rfl : s.dialect = {})
  have h : SplitIntegers (matrixRows rows cols entry) cols splitter := ⟨hne, hwidth, hclean⟩
  constructor
  · refine ⟨_, h.read_eq hchunk hsplit, ?_, ?_, ?_, ?_, ?_, ?_⟩
    · exact h.lines_length.trans hlength
    · exact h.sources_length
    · rw [h.size_data, hlength]
    · exact fun row hrow col hcol => h.getElem?_data hlength (cellAt_matrixRows entry hrow hcol)
    · exact h.status_eq
    · exact h.remarks_eq
  · obtain ⟨typed, htyped, hsheet⟩ := h.load_int hchunk ht hc hlimit hsplit
    have hsources : sources (plainSettings (.fixed .int) order chunkSize) splitter ≠ [] := by
      rw [← List.length_pos_iff, h.sources_length]
      exact hc
    obtain ⟨detected, hdetected, -, values, htypedSheet, hdetectedSheet⟩ := load_auto_of_int ht
      (sameIntegers_plain (.fixed .int) order chunkSize) hsplit h.lines_ne_nil hsources htyped
    obtain ⟨hrows, hcols, htypes, hget⟩ := answers_matrixRows hsheet
    intro type htype
    simp only [List.mem_cons, List.not_mem_nil, or_false] at htype
    rcases htype with rfl | rfl
    · exact ⟨typed, htyped, hrows, hcols, htypes, hget⟩
    · refine ⟨detected, hdetected, ?_, ?_, fun col hcol => ?_, fun row hrow col hcol => ?_⟩
      · exact (htypedSheet.rows_congr hdetectedSheet rfl).trans hrows
      · exact (htypedSheet.cols_congr hdetectedSheet).trans hcols
      · exact columnType_intSheet hdetectedSheet (h.sources_length.symm ▸ hcol)
      · exact (htypedSheet.get_congr hdetectedSheet rfl .int row col).trans (hget row hrow col hcol)

/-- Both ends of the integers, in pieces of one byte. -/
theorem matrix_survives_limits :
    let entry (row col : Nat) : Int64 :=
      if col = 0 then Int64.minValue else if row = 0 then Int64.maxValue else 0
    let s : Settings := { order := .columnMajor, chunkSize := 1 }
    let bytes := writeIntegers (matrixRows 2 3 entry)
    (∃ reading, readBytes (.scalar .int) s bytes = .ok reading ∧
      reading.rows = 2 ∧ reading.cols = 3 ∧ reading.data.size = 2 * 3 ∧
      (∀ row < 2, ∀ col < 3,
        reading.data[Order.columnMajor.offset row col 2 3]? = some (entry row col)) ∧
      reading.status = .success ∧ reading.remarks = []) ∧
    ∀ type ∈ ([.fixed .int, .auto] : List LoadType),
      ∃ filled, loadBytes .empty { s with loadType := type } bytes = .ok (filled, .success) ∧
        filled.rows = 2 ∧ filled.cols = 3 ∧
        (∀ col < 3, filled.columnType col = .ok .int) ∧
        ∀ row < 2, ∀ col < 3, filled.get {} .int row col = .ok (entry row col) := by
  intro entry
  have hmemory : (writeIntegers (matrixRows 2 3 entry)).length < wordLimit := by decide +kernel
  exact matrix_survives (Table.Represents.empty {}) 2 3 entry (by decide) (by decide) hmemory
    .columnMajor 1 (by decide)

/-- Pieces of no bytes are refused before anything is read. -/
theorem matrix_refused_emptyChunks :
    let s : Settings := { chunkSize := 0 }
    let bytes := writeIntegers (matrixRows 1 1 fun _ _ => 7)
    bytes = [55, 10] ∧
    readBytes (.scalar .int) s bytes = .error (.option .emptyChunks) ∧
    ∀ type ∈ ([.fixed .int, .auto] : List LoadType),
      loadBytes .empty { s with loadType := type } bytes =
        .error ⟨.option .emptyChunks, .empty⟩ := by
  refine ⟨by decide +kernel, rfl, ?_⟩
  intro type htype
  simp only [List.mem_cons, List.not_mem_nil, or_false] at htype
  rcases htype with rfl | rfl <;> rfl

end Survival

end TypedTable.Csv
