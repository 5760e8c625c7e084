import TypedTable.Csv.Loading
import TypedTable.Proofs.Csv.Detecting
import TypedTable.Proofs.Sheet.Representation

/-!
# Groups of columns side by side

Columns are put into the table group by group. The columns of the groups are those that were
grouped, in their order, whatever run of them the loop has before it.
-/

set_option autoImplicit false

namespace TypedTable.Csv

namespace TypedColumn

variable {d : Dialect} {preference : Preference} {column later : TypedColumn}

def toColumn (column : TypedColumn) : Column := ⟨column.type, column.values.toList⟩

@[simp] theorem size_int (values : Array Int64) : (int values).size = values.size := rfl

@[simp] theorem size_float (values : Array Float32) : (float values).size = values.size := rfl

@[simp] theorem size_double (values : Array Float) : (double values).size = values.size := rfl

@[simp] theorem size_bool (values : Array UInt8) : (bool values).size = values.size := rfl

@[simp] theorem size_str (values : Array String) : (str values).size = values.size := rfl

theorem size_push? {value : CellValue} (h : column.push? value = some later) :
    later.size = column.size + 1 := by
  unfold push? at h
  split at h
  case h_4 values n =>
    split_ifs at h with hempty
    cases h
    rw [Array.isEmpty_iff.1 hempty]
    rfl
  case h_10 => cases h
  all_goals
    cases h
    simp

theorem size_addCell? {text : String} (h : column.addCell? d preference text = some later) :
    later.size = column.size + 1 := by
  obtain ⟨value, -, hpush⟩ := Option.bind_eq_some_iff.1 h
  exact size_push? hpush

theorem size_ofCells (d : Dialect) (preference : Preference) (cells : List String) :
    (ofCells d preference cells).size = cells.length := by
  rw [ofCells_eq]
  cases hfold : cells.foldlM (addCell? d preference) (.int #[]) with
  | none => simp
  | some later =>
    have hempty : (int #[]).size = ([] : List String).length := rfl
    exact foldlM_prefix (P := fun done column => column.size = done.length)
      (fun h hadd => by rw [size_addCell? hadd, h, List.length_append, List.length_singleton])
      hempty hfold

end TypedColumn

namespace Loading

variable {rows width : Nat} {type : ScalarType}

/-- A column-major rectangle whose last column is put after the others. -/
theorem pieces_append {front back : List type.Carrier} (hf : front.length = width * rows)
    (hb : back.length = rows) :
    Sheet.pieces rows (width + 1) .columnMajor (front ++ back).toArray =
      Sheet.pieces rows width .columnMajor front.toArray ++ [⟨type, back⟩] := by
  have hlast : Column.ofInput rows (width + 1) .columnMajor (front ++ back).toArray width =
      ⟨type, back⟩ := by
    rw [Column.ofInput, Column.mk.injEq]
    refine ⟨rfl, heq_of_eq (List.ext_getElem (by simp [hb]) fun row hleft hright => ?_)⟩
    have hplace : (front ++ back)[width * rows + row]? = some back[row] := by
      rw [← hf, List.getElem?_append_right (Nat.le_add_right _ _), Nat.add_sub_cancel_left,
        List.getElem?_eq_getElem hright]
    simp [Array.getD_eq_getD_getElem?, hplace]
  have hearlier (col : Nat) (hcol : col < width) :
      Column.ofInput rows (width + 1) .columnMajor (front ++ back).toArray col =
        Column.ofInput rows width .columnMajor front.toArray col := by
    rw [Column.ofInput, Column.ofInput, Column.mk.injEq]
    refine ⟨rfl, heq_of_eq (List.map_congr_left fun row hrow => ?_)⟩
    have hplace : col * rows + row < front.length := by
      rw [hf, Nat.mul_comm width]
      exact Order.columnMajor.offset_lt (List.mem_range.1 hrow) hcol
    simp only [Array.getD_eq_getD_getElem?, List.getElem?_toArray,
      List.getElem?_append_left hplace]
  rw [Sheet.pieces, List.range_succ, List.map_append, List.map_singleton, hlast]
  congr 1
  exact List.map_congr_left fun col hcol => hearlier col (List.mem_range.1 hcol)

def Group.columns (rows : Nat) (group : Group) : List Column :=
  Sheet.pieces rows group.width .columnMajor group.cells.toArray

def Group.Full (rows : Nat) (group : Group) : Prop := group.cells.length = group.width * rows

theorem Group.full_ofColumn {column : TypedColumn} (h : column.size = rows) :
    (Group.ofColumn column).Full rows := by
  rw [Full, ofColumn, Nat.one_mul]
  exact Array.length_toList.trans h

theorem Group.columns_ofColumn {column : TypedColumn} (h : column.size = rows) :
    (Group.ofColumn column).columns rows = [column.toColumn] := by
  have hnone : ([] : List column.type.Carrier).length = 0 * rows := (Nat.zero_mul rows).symm
  exact pieces_append hnone (Array.length_toList.trans h)

theorem Group.columns_extend? {column : TypedColumn} {group wider : Group} (hf : group.Full rows)
    (h : column.size = rows) (hextend : group.extend? column = some wider) :
    wider.Full rows ∧ wider.columns rows = group.columns rows ++ [column.toColumn] := by
  obtain ⟨type, width, cells⟩ := group
  unfold extend? at hextend
  split at hextend
  next htype =>
    obtain rfl : column.type = type := htype
    cases hextend
    have hlength : column.values.toList.length = rows := Array.length_toList.trans h
    refine ⟨?_, pieces_append hf hlength⟩
    rw [Full, Nat.succ_mul, ← hf, ← hlength]
    exact List.length_append
  next => cases hextend

/-- The invariant of the loop: the columns before it and those of its current group come before the
columns that are left. -/
theorem columns_groupColumns_after {current : Option Group} {columns : List TypedColumn}
    (hc : ∀ group ∈ current, group.Full rows) (h : ∀ column ∈ columns, column.size = rows) :
    (groupColumns current columns).flatMap (Group.columns rows) =
      current.elim [] (Group.columns rows) ++ columns.map TypedColumn.toColumn := by
  induction columns generalizing current with
  | nil => cases current <;> simp [groupColumns]
  | cons column later ih =>
    have hcolumn := h column (by simp)
    have hlater : ∀ column ∈ later, column.size = rows := fun column hm => h column (by simp [hm])
    have hstart : (groupColumns (some (.ofColumn column)) later).flatMap (Group.columns rows) =
        column.toColumn :: later.map TypedColumn.toColumn := by
      rw [ih (by simp [Group.full_ofColumn hcolumn]) hlater, Option.elim_some,
        Group.columns_ofColumn hcolumn]
      rfl
    cases current with
    | none => exact hstart
    | some group =>
      have hfull := hc group rfl
      rw [groupColumns]
      cases hextend : group.extend? column with
      | some wider =>
        obtain ⟨hwider, hcolumns⟩ := Group.columns_extend? hfull hcolumn hextend
        dsimp only
        rw [ih (by simpa using hwider) hlater, Option.elim_some, hcolumns, List.append_assoc]
        rfl
      | none =>
        dsimp only
        rw [List.flatMap_cons, hstart]
        rfl

theorem columns_groupColumns {columns : List TypedColumn}
    (h : ∀ column ∈ columns, column.size = rows) :
    (groupColumns none columns).flatMap (Group.columns rows) = columns.map TypedColumn.toColumn :=
  columns_groupColumns_after (by simp) h

theorem groupColumns_some_ints (values : List (List Int64)) (width : Nat) (cells : List Int64) :
    groupColumns (some ⟨.int, width, cells⟩) (values.map fun column => .int column.toArray) =
      [⟨.int, width + values.length, cells ++ values.flatten⟩] := by
  induction values generalizing width cells with
  | nil => simp [groupColumns]
  | cons column later ih =>
    have hextend : Group.extend? ⟨.int, width, cells⟩ (.int column.toArray) =
        some ⟨.int, width + 1, cells ++ column⟩ := rfl
    rw [List.map_cons, groupColumns, hextend]
    dsimp only
    rw [ih, List.flatten_cons, List.append_assoc, List.length_cons, Nat.add_right_comm,
      Nat.add_assoc]

theorem groupColumns_ints {values : List (List Int64)} (h : values ≠ []) :
    groupColumns none (values.map fun column => .int column.toArray) =
      [⟨.int, values.length, values.flatten⟩] := by
  obtain ⟨column, later, rfl⟩ := List.exists_cons_of_ne_nil h
  refine (groupColumns_some_ints later 1 column).trans ?_
  rw [List.length_cons, Nat.add_comm, List.flatten_cons]

theorem columns_ints {values : List (List Int64)} (h : ∀ column ∈ values, column.length = rows) :
    Group.columns rows ⟨.int, values.length, values.flatten⟩ =
      values.map fun column => (⟨.int, column⟩ : Column) := by
  rcases eq_or_ne values [] with rfl | hne
  · rfl
  · have hsize : ∀ column ∈ values.map fun column => TypedColumn.int column.toArray,
        column.size = rows := by
      simpa using h
    have hcolumns := columns_groupColumns hsize
    rw [groupColumns_ints hne, List.flatMap_singleton, List.map_map] at hcolumns
    exact hcolumns

end Loading

end TypedTable.Csv
