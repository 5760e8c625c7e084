import Mathlib.Data.List.GetD
import Mathlib.Tactic.SplitIfs
import TypedTable.Csv.TypedColumn
import TypedTable.Proofs.Csv.Matrices
import TypedTable.Proofs.Numeral.Integers

/-!
# Columns that are found to be integers

A column found from texts is one of integers just if each of its texts is read as an integer, and a
text is read as one just if its field is. So nothing is won or lost by the detour through text.
-/

set_option autoImplicit false

namespace TypedTable.Csv

namespace Field

variable {d : Dialect}

theorem value?_int (d : Dialect) (field : List UInt8) :
    value? d (.scalar .int) field =
      match Numeral.parseSigned d.thousands d.intMin.toInt d.intMax.toInt field with
      | .ok value => some (Int64.ofInt value)
      | .error _ => none := by
  have hconvert : convert d (.scalar .int) field =
      toInteger d (.scalar .int) d.intMin.toInt d.intMax.toInt field >>= fun value =>
        .ok ⟨Int64.ofInt value, true⟩ := rfl
  rw [value?, hconvert, toInteger]
  cases Numeral.parseSigned d.thousands d.intMin.toInt d.intMax.toInt field <;> rfl

theorem value?_int_trimmed (d : Dialect) (field : List UInt8) :
    value? d (.scalar .int) (Text.trimEnd Text.isBlank
        (if d.skipInitialSpace then Text.skipBlanks field else field)) =
      value? d (.scalar .int) field := by
  have htrim (text : List UInt8) : value? d (.scalar .int) (Text.trimEnd Text.isBlank text) =
      value? d (.scalar .int) text := by
    obtain ⟨blanks, hblanks, htext⟩ := Text.trimEnd_append_blanks text
    have hsame : Numeral.parseSigned d.thousands d.intMin.toInt d.intMax.toInt
        (Text.trimEnd Text.isBlank text ++ blanks) =
          Numeral.parseSigned d.thousands d.intMin.toInt d.intMax.toInt
            (Text.trimEnd Text.isBlank text) := Numeral.parseSigned_append_blanks _ _ hblanks
    rw [← htext] at hsame
    rw [value?_int, value?_int, hsame]
  rw [htrim]
  split_ifs
  · rw [value?_int, value?_int, Numeral.parseSigned_skipBlanks]
  · rfl

/-- The text of a field is read as the integer that the field is read as. Bytes that are no
well-formed text are no part of an integer either. -/
theorem value?_int_toText (hs : ∀ byte, d.thousands = some byte → byte < 128)
    (field : List UInt8) :
    value? d (.scalar .int) (CellValue.bytes (toText d field)) =
      value? d (.scalar .int) field := by
  have hnone (bytes : List UInt8) (h : ∃ byte ∈ bytes, 128 ≤ byte) :
      value? d (.scalar .int) bytes = none := by
    obtain ⟨byte, hbyte, hle⟩ := h
    rw [value?_int]
    cases hparse : Numeral.parseSigned d.thousands d.intMin.toInt d.intMax.toInt bytes with
    | error fault => rfl
    | ok value =>
      have hlt := Numeral.ascii_of_parseSigned hs hparse byte hbyte
      exact absurd hle (UInt8.not_le.2 hlt)
  rw [← value?_int_trimmed d field, toText, CellValue.bytes]
  generalize Text.trimEnd Text.isBlank
    (if d.skipInitialSpace then Text.skipBlanks field else field) = trimmed
  by_cases hwide : ∃ byte ∈ trimmed, 128 ≤ byte
  · rw [hnone trimmed hwide, hnone _ (Text.exists_wide_decode hwide)]
  · rw [Text.bytes_decode]
    intro byte hbyte
    exact UInt8.not_le.1 fun hle => hwide ⟨byte, hbyte, hle⟩

end Field

namespace TypedColumn

variable {d : Dialect} {preference : Preference} {column later : TypedColumn} {text : String}

/-! ## Row after row -/

theorem push?_ne_str {value : CellValue} (h : column.push? value = some later) :
    later.type ≠ .str := by
  unfold push? at h
  split at h
  case h_4 =>
    split_ifs at h
    cases h
    simp [type]
  case h_10 => cases h
  all_goals
    cases h
    simp [type]

theorem addCells_ne_str {cells : List String} {first : TypedColumn} (hf : first.type ≠ .str)
    (h : cells.foldlM (addCell? d preference) first = some column) : column.type ≠ .str := by
  induction cells generalizing first with
  | nil => exact Option.some.inj h ▸ hf
  | cons cell cells ih =>
    rw [List.foldlM_cons] at h
    obtain ⟨next, hnext, h⟩ := Option.bind_eq_some_iff.1 h
    obtain ⟨value, -, hpush⟩ := Option.bind_eq_some_iff.1 hnext
    exact ih (push?_ne_str hpush) h

theorem addRow_of_ne_str {cells : List String} {row : Nat} (h : column.type ≠ .str) :
    addRow d preference cells column row =
      (addCell? d preference column (cells.getD row "")).getD
        (.str (cells.take (row + 1)).toArray) := by
  cases column with
  | str texts => exact absurd rfl h
  | _ => rfl

/-- A column of strings has the texts of all rows so far, also of those before the one that made it
one of strings. -/
theorem foldl_addRow {cells : List String} {rows : Nat} (hrows : rows ≤ cells.length) :
    (List.range rows).foldl (addRow d preference cells) (.int #[]) =
      ((cells.take rows).foldlM (addCell? d preference) (.int #[])).getD
        (.str (cells.take rows).toArray) := by
  induction rows with
  | zero => rfl
  | succ row ih =>
    have hnext : cells.take (row + 1) = cells.take row ++ [cells.getD row ""] := by
      rw [List.take_succ_eq_append_getElem hrows, List.getD_eq_getElem _ _ hrows]
    rw [List.range_succ, List.foldl_append, ih (Nat.le_of_succ_le hrows), List.foldl_cons,
      List.foldl_nil]
    cases hcells : (cells.take row).foldlM (addCell? d preference) (.int #[]) with
    | none =>
      rw [hnext, List.foldlM_append, hcells]
      simp [addRow]
    | some column =>
      have hkept := addCells_ne_str (by simp [type]) hcells
      rw [Option.getD_some, addRow_of_ne_str hkept, hnext, List.foldlM_append, hcells]
      simp

/-- Row after row comes to the cells one after the other, up to one that the column cannot hold. -/
theorem ofCells_eq (d : Dialect) (preference : Preference) (cells : List String) :
    ofCells d preference cells =
      (cells.foldlM (addCell? d preference) (.int #[])).getD (.str cells.toArray) := by
  rw [ofCells, foldl_addRow (Nat.le_refl _), List.take_length]

/-! ## Integers -/

theorem ofFloatText?_ne_int (precision : Precision) (field : List UInt8) (value : Int64) :
    CellValue.ofFloatText? d precision field ≠ some (.int value) := by
  intro h
  cases precision with
  | double =>
    obtain ⟨found, -, hfound⟩ := Option.map_eq_some_iff.1 h
    cases hfound
  | single =>
    obtain ⟨found, -, hfound⟩ := Option.map_eq_some_iff.1 h
    cases hfound

theorem ofText?_int_iff (hints : preference.integersAsFloats = false) {value : Int64} :
    CellValue.ofText? d preference text = some (.int value) ↔
      Field.Has d (.scalar .int) (CellValue.bytes text) value := by
  rw [CellValue.ofText?, hints, Field.Has]
  simp only [Bool.false_eq_true, if_false]
  cases Field.value? d (.scalar .int) (CellValue.bytes text) with
  | some found =>
    show some (CellValue.int found) = some (.int value) ↔ some found = some value
    simp
  | none =>
    constructor
    · intro h
      cases hfloat : CellValue.ofFloatText? d preference.precision (CellValue.bytes text) with
      | some found =>
        rw [hfloat] at h
        obtain rfl := Option.some.inj h
        exact absurd hfloat (ofFloatText?_ne_int _ _ value)
      | none =>
        rw [hfloat] at h
        obtain ⟨found, -, hfound⟩ := Option.map_eq_some_iff.1 h
        cases hfound
    · intro h
      cases h

/-- A column that is one of integers after a cell was one before it, and the cell is an integer. -/
theorem push?_int {value : CellValue} (h : column.push? value = some later)
    (hlater : later.type = .int) :
    ∃ values n, column = .int values ∧ value = .int n ∧ later = .int (values.push n) := by
  unfold push? at h
  split at h
  case h_1 values n =>
    cases h
    exact ⟨values, n, rfl, rfl, rfl⟩
  case h_4 values n =>
    split_ifs at h
    cases h
    cases hlater
  case h_10 => cases h
  all_goals
    cases h
    cases hlater

theorem addCells_int (hints : preference.integersAsFloats = false) {cells : List String}
    (h : cells.foldlM (addCell? d preference) column = some later) (hlater : later.type = .int) :
    ∃ before values, column = .int before ∧
      List.Forall₂ (Field.Has d (.scalar .int)) (cells.map CellValue.bytes) values ∧
      later = .int (before ++ values.toArray) := by
  induction cells generalizing column with
  | nil =>
    obtain rfl := Option.some.inj h
    cases column with
    | int before => exact ⟨before, [], rfl, .nil, by simp⟩
    | _ => cases hlater
  | cons text rest ih =>
    rw [List.foldlM_cons] at h
    obtain ⟨next, hnext, hrest⟩ := Option.bind_eq_some_iff.1 h
    obtain ⟨before, values, rfl, hvalues, rfl⟩ := ih hrest
    obtain ⟨value, hvalue, hpush⟩ := Option.bind_eq_some_iff.1 hnext
    obtain ⟨first, n, rfl, rfl, hfirst⟩ := push?_int hpush rfl
    obtain rfl := TypedColumn.int.inj hfirst
    refine ⟨first, n :: values, rfl, .cons ((ofText?_int_iff hints).1 hvalue) hvalues, ?_⟩
    simp

theorem addCells_of_ints (hints : preference.integersAsFloats = false) {cells : List String}
    {values : List Int64}
    (h : List.Forall₂ (Field.Has d (.scalar .int)) (cells.map CellValue.bytes) values)
    (before : Array Int64) :
    cells.foldlM (addCell? d preference) (.int before) = some (.int (before ++ values.toArray)) := by
  induction cells generalizing values before with
  | nil =>
    cases h
    simp
  | cons text rest ih =>
    cases h with
    | cons hvalue hvalues =>
      rename_i value values
      have hstep : addCell? d preference (.int before) text = some (.int (before.push value)) := by
        rw [addCell?, (ofText?_int_iff hints).2 hvalue]
        rfl
      rw [List.foldlM_cons, hstep]
      refine (ih hvalues (before.push value)).trans ?_
      simp

/-- A column is one of integers if all of its cells are, and then it holds them. -/
theorem ofCells_int_iff (hints : preference.integersAsFloats = false) {cells : List String}
    {values : List Int64} :
    ofCells d preference cells = .int values.toArray ↔
      List.Forall₂ (Field.Has d (.scalar .int)) (cells.map CellValue.bytes) values := by
  constructor
  · intro h
    rw [ofCells_eq] at h
    cases hfold : cells.foldlM (addCell? d preference) (.int #[]) with
    | none =>
      rw [hfold] at h
      cases h
    | some later =>
      rw [hfold, Option.getD_some] at h
      subst h
      obtain ⟨before, found, hbefore, hfound, hsame⟩ := addCells_int hints hfold rfl
      cases hbefore
      have hvalues : values = found := by simpa using hsame
      exact hvalues ▸ hfound
  · intro h
    rw [ofCells_eq, addCells_of_ints hints h #[]]
    simp

theorem exists_ints_of_type (h : column.type = .int) : ∃ values : List Int64,
    column = .int values.toArray := by
  cases column with
  | int values => exact ⟨values.toList, by simp⟩
  | _ => cases h

end TypedColumn

namespace Matrix

variable {d : Dialect} {preference : Preference} {fields : List (List (List UInt8))}
  {width col : Nat}

def columnTexts (d : Dialect) (fields : List (List (List UInt8))) (col : Nat) : List String :=
  fields.map fun row => Field.toText d (row.getD col [])

theorem reads_texts (d : Dialect) (fields : List (List (List UInt8))) :
    Reads d (.scalar .str) fields (fields.map (·.map (Field.toText d))) := by
  rw [Reads, List.forall₂_map_right_iff, List.forall₂_same]
  intro row _
  rw [List.forall₂_map_right_iff, List.forall₂_same]
  exact fun field _ => rfl

theorem eq_texts {texts : List (List String)} (h : Reads d (.scalar .str) fields texts) :
    texts = fields.map (·.map (Field.toText d)) := by
  have hrow {row : List (List UInt8)} {entries : List String}
      (h : List.Forall₂ (Field.Has d (.scalar .str)) row entries) :
      entries = row.map (Field.toText d) := by
    induction h with
    | nil => rfl
    | cons hfield _ ih => rw [ih, List.map_cons, ← Option.some.inj hfield]
  induction h with
  | nil => rfl
  | cons hfirst _ ih => rw [ih, List.map_cons, hrow hfirst]

theorem cells_column (hw : ∀ row ∈ fields, row.length = width) (hc : col < width) :
    ((List.range fields.length).map fun row =>
      (fields.map (·.map (Field.toText d))).flatten.toArray.getD (row * width + col) "") =
        columnTexts d fields col := by
  apply List.ext_getElem
  · simp [columnTexts]
  intro row hleft hright
  have hr : row < fields.length := by simpa using hleft
  have hwidth := hw _ (List.getElem_mem hr)
  have hcell : CellAt (fields.map (·.map (Field.toText d))) row col
      (Field.toText d (fields[row].getD col [])) := by
    refine ⟨fields[row].map (Field.toText d), by simp [hr], ?_⟩
    rw [List.getElem?_map, List.getD_eq_getElem?_getD,
      List.getElem?_eq_getElem (hwidth ▸ hc)]
    rfl
  have hwidths : ∀ entries ∈ fields.map (·.map (Field.toText d)), entries.length = width := by
    intro entries hmem
    obtain ⟨row, hrow, rfl⟩ := List.mem_map.1 hmem
    rw [List.length_map, hw row hrow]
  have hflat := getElem?_flatten hwidths hcell
  simp only [List.getElem_map, List.getElem_range, columnTexts, Array.getD_eq_getD_getElem?,
    List.getElem?_toArray, hflat, Option.getD_some]

theorem ofMatrix_texts (d : Dialect) (preference : Preference)
    (hw : ∀ row ∈ fields, row.length = width) :
    TypedColumn.ofMatrix d preference (fields.map (·.map (Field.toText d))).flatten.toArray
        fields.length width =
      (List.range width).map fun col =>
        TypedColumn.ofCells d preference (columnTexts d fields col) := by
  apply List.map_congr_left
  intro col hcol
  rw [cells_column hw (List.mem_range.1 hcol)]

def columnValues {α : Type} (values : List (List α)) (missing : α) (col : Nat) : List α :=
  values.map (·.getD col missing)

theorem has_columnTexts (hs : ∀ byte, d.thousands = some byte → byte < 128)
    {found : List Int64} :
    List.Forall₂ (Field.Has d (.scalar .int)) ((columnTexts d fields col).map CellValue.bytes)
        found ↔
      List.Forall₂ (fun row value => Field.Has d (.scalar .int) (row.getD col []) value) fields
        found := by
  rw [columnTexts, List.map_map, List.forall₂_map_left_iff]
  simp only [Field.Has, Function.comp_apply, Field.value?_int_toText hs]

/-- Rows of integers are found as columns of integers. -/
theorem ofCells_of_reads (hs : ∀ byte, d.thousands = some byte → byte < 128)
    (hints : preference.integersAsFloats = false) {values : List (List Int64)}
    (h : Reads d (.scalar .int) fields values) (hw : ∀ row ∈ fields, row.length = width)
    (hc : col < width) (missing : Int64) :
    TypedColumn.ofCells d preference (columnTexts d fields col) =
      .int (columnValues values missing col).toArray := by
  rw [TypedColumn.ofCells_int_iff hints, has_columnTexts hs, columnValues,
    List.forall₂_map_right_iff]
  have hrow {row : List (List UInt8)} {entries : List Int64}
      (h : List.Forall₂ (Field.Has d (.scalar .int)) row entries) (hlt : col < row.length) :
      Field.Has d (.scalar .int) (row.getD col []) (entries.getD col missing) := by
    have hlt' : col < entries.length := h.length_eq ▸ hlt
    have hget := (List.forall₂_iff_get.1 h).2 col hlt hlt'
    rw [List.getD_eq_getElem _ _ hlt, List.getD_eq_getElem _ _ hlt']
    exact hget
  induction h with
  | nil => exact .nil
  | @cons row _ _ _ hfirst _ ih =>
    have hin : col < row.length := by rwa [hw row (by simp)]
    exact .cons (hrow hfirst hin) (ih fun row h => hw row (by simp [h]))

/-- If all columns are found to be integers, every field is one. -/
theorem reads_of_columns (hs : ∀ byte, d.thousands = some byte → byte < 128)
    (hints : preference.integersAsFloats = false) (hw : ∀ row ∈ fields, row.length = width)
    (htypes : ∀ col < width,
      (TypedColumn.ofCells d preference (columnTexts d fields col)).type = .int) :
    ∃ values, Reads d (.scalar .int) fields values := by
  have hfield : ∀ row ∈ fields, ∀ field ∈ row, ∃ value, Field.Has d (.scalar .int) field value := by
    intro row hrow field hmem
    obtain ⟨place, hplace, rfl⟩ := List.mem_iff_getElem.1 hrow
    obtain ⟨col, hcol, rfl⟩ := List.mem_iff_getElem.1 hmem
    obtain ⟨found, hfound⟩ := TypedColumn.exists_ints_of_type (htypes col (hw _ hrow ▸ hcol))
    have hall := (has_columnTexts hs).1 ((TypedColumn.ofCells_int_iff hints).1 hfound)
    have hget := (List.forall₂_iff_get.1 hall).2 place hplace (hall.length_eq ▸ hplace)
    rw [List.get_eq_getElem, List.getD_eq_getElem _ _ hcol] at hget
    exact ⟨_, hget⟩
  refine ⟨fields.map (·.map fun field => (Field.value? d (.scalar .int) field).getD 0), ?_⟩
  rw [Reads, List.forall₂_map_right_iff, List.forall₂_same]
  intro row hrow
  rw [List.forall₂_map_right_iff, List.forall₂_same]
  intro field hmem
  obtain ⟨value, hvalue⟩ := hfield row hrow field hmem
  rw [Field.Has, show Field.value? d (.scalar .int) field = some value from hvalue]
  rfl

end Matrix

end TypedTable.Csv
