import TypedTable.Proofs.Sheet.Representation
import TypedTable.Proofs.Table.Answers
import TypedTable.Proofs.Table.Copying

/-!
# What tables show of their sheets

The type of a column and the value of a cell are those of the sheet. So tables that stand for one
complete sheet answer alike, whatever blocks they are made of and however they are labeled.
-/

set_option autoImplicit false

namespace TypedTable.Table.Represents

variable {heap : Heap} {table other later : Table} {sheet : Sheet} {type : ScalarType}
  {rows cols : Nat} {order : Order}

/-- A table whose sheet has no incoming rows is complete. -/
theorem pending_eq_none (h : table.Represents heap sheet) (hin : sheet.incoming = []) :
    table.pending = none := by
  have hlength := h.incoming
  rw [hin, nextRowColumn] at hlength
  cases hp : table.pending with
  | none => rfl
  | some pending =>
    have hrows := h.consistent.hasRows
    rw [HasRows, hp] at hrows
    rw [hp] at hlength
    exact absurd hlength.symm (Nat.ne_of_gt hrows.1)

theorem columnType_eq (h : table.Represents heap sheet) {col : Nat} {column : Column}
    (hcol : sheet.columns[col]? = some column) : table.columnType col = .ok column.type := by
  have hlt : col < table.cols := h.cols ▸ (List.getElem?_eq_some_iff.1 hcol).1
  obtain ⟨entry, hm, hmem⟩ := h.consistent.exists_entry hlt
  obtain ⟨found, hfound, htypes⟩ := h.consistent.chainType_eq hm
  rw [columnType, checkCol, require, if_pos hlt, ok_bind, head,
    RangeMap.find?_of_mem h.consistent.sorted hm hmem, ok_bind, hfound,
    h.type_eq hm hmem hcol htypes]

theorem rows_congr (h : table.Represents heap sheet) (ho : other.Represents heap sheet)
    (hin : sheet.incoming = []) : other.rows = table.rows := by
  rw [h.rows_eq (h.pending_eq_none hin), ho.rows_eq (ho.pending_eq_none hin)]

theorem cols_congr (h : table.Represents heap sheet) (ho : other.Represents heap sheet) :
    other.cols = table.cols := ho.cols.trans h.cols.symm

/-- Tables that stand for one sheet have the same cells. -/
theorem get_congr (h : table.Represents heap sheet) (ho : other.Represents heap sheet)
    (hin : sheet.incoming = []) (type : ScalarType) (row col : Nat) :
    other.get heap type row col = table.get heap type row col := by
  have hp := h.pending_eq_none hin
  have hpo := ho.pending_eq_none hin
  have hcols := h.cols_congr ho
  refine h.consistent.get_congr ho.consistent (hpo.trans hp.symm) (h.rows_congr ho hin) hcols ?_ type
  by_cases hc : col < table.cols
  · have hcol := List.getElem?_eq_getElem (h.cols ▸ hc : col < sheet.columns.length)
    rw [h.column_eq hp hcol, ho.column_eq hpo hcol]
  · have hle := Nat.le_of_not_lt hc
    rw [column_eq_map, column_eq_map, h.consistent.origins_eq_nil hle,
      ho.consistent.origins_eq_nil (hcols ▸ hle)]

/-- The value of a cell of the sheet is found in the table. -/
theorem get_eq_ok (h : table.Represents heap sheet) (hin : sheet.incoming = []) {row col : Nat}
    {column : Column} (hcol : sheet.columns[col]? = some column) {value : column.type.Carrier}
    (hrow : column.values[row]? = some value) :
    table.get heap column.type row col = .ok value := by
  have hp := h.pending_eq_none hin
  have hcell : table.Holds heap row col value := by
    rw [Holds, h.column_eq hp hcol, Column.cells, List.getElem?_map, hrow]
    rfl
  exact h.consistent.get_of_holds hp hcell

theorem with_labels (h : table.Represents heap sheet) {labels : Labels}
    (hc : ({ table with labels := labels } : Table).Consistent heap) :
    ({ table with labels := labels } : Table).Represents heap sheet :=
  { h with consistent := hc }

end TypedTable.Table.Represents
