import TypedTable.Proofs.Table.Fitting
import TypedTable.Proofs.Table.Slicing

/-!
# When selections can be copied

A selection is copied interval by interval: whether all its rectangles find room only depends on the
last cell of the whole. As selections never go out of range, an extraction is refused for an unknown
name, a column of another type or an output that is too small, and for nothing else.
-/

set_option autoImplicit false

namespace TypedTable

open TypedTable.Dense (target)

namespace Table

variable {heap : Heap} {table : Table} {type : ScalarType} {lead start size : Nat}

/-- The columns `cols` have the type, and an output of `size` elements has a place for `rows` cells
of each of them, column-major from `start` on and with columns `lead` apart. -/
def HasRoom (table : Table) (type : ScalarType) (rows : Nat) (cols : List Nat)
    (lead start size : Nat) : Prop :=
  ∀ i j col, i < rows → cols[j]? = some col →
    table.columnType col = .ok type ∧ target start lead i j < size

namespace HasRoom

variable {rows below : Nat} {cols right : List Nat}

theorem append_rows_iff :
    table.HasRoom type (rows + below) cols lead start size ↔
      table.HasRoom type rows cols lead start size ∧
        table.HasRoom type below cols lead (start + rows) size := by
  have hplace (i j : Nat) : target (start + rows) lead i j = target start lead (rows + i) j := by
    simp only [target]
    omega
  constructor
  · intro h
    exact ⟨fun i j col hi => h i j col (by omega), fun i j col hi hcol =>
      hplace i j ▸ h (rows + i) j col (by omega) hcol⟩
  · rintro ⟨h, hb⟩ i j col hi hcol
    rcases Nat.lt_or_ge i rows with hlt | hge
    · exact h i j col hlt hcol
    · have := hb (i - rows) j col (by omega) hcol
      rwa [hplace, Nat.add_sub_cancel' hge] at this

theorem append_cols_iff :
    table.HasRoom type rows (cols ++ right) lead start size ↔
      table.HasRoom type rows cols lead start size ∧
        table.HasRoom type rows right lead (start + cols.length * lead) size := by
  have hplace (i j : Nat) : target (start + cols.length * lead) lead i j =
      target start lead i (cols.length + j) := by
    simp only [target, Nat.add_mul]
    omega
  constructor
  · intro h
    refine ⟨fun i j col hi hcol => ?_, fun i j col hi hcol => ?_⟩
    · have hj := (List.getElem?_eq_some_iff.1 hcol).1
      exact h i j col hi ((List.getElem?_append_left hj).trans hcol)
    · rw [hplace]
      refine h i (cols.length + j) col hi ?_
      rwa [List.getElem?_append_right (Nat.le_add_right _ _), Nat.add_sub_cancel_left]
  · rintro ⟨h, hr⟩ i j col hi hcol
    rcases Nat.lt_or_ge j cols.length with hlt | hge
    · exact h i j col hi ((List.getElem?_append_left hlt).symm.trans hcol)
    · have := hr i (j - cols.length) col hi ((List.getElem?_append_right hge).symm.trans hcol)
      rwa [hplace, Nat.add_sub_cancel' hge] at this

theorem iff_last (hr : 0 < rows) (hc : 0 < cols.length) :
    table.HasRoom type rows cols lead start size ↔
      (∀ col ∈ cols, table.columnType col = .ok type) ∧
        target start lead (rows - 1) (cols.length - 1) < size := by
  constructor
  · intro h
    refine ⟨fun col hm => ?_, ?_⟩
    · obtain ⟨j, hj⟩ := List.mem_iff_getElem?.1 hm
      exact (h 0 j col hr hj).1
    · have hlast : cols.length - 1 < cols.length := by omega
      exact (h (rows - 1) _ _ (by omega) (List.getElem?_eq_getElem hlast)).2
  · rintro ⟨htypes, hlast⟩ i j col hi hcol
    have hj := (List.getElem?_eq_some_iff.1 hcol).1
    refine ⟨htypes col (List.mem_of_getElem? hcol), Nat.lt_of_le_of_lt ?_ hlast⟩
    exact Dense.target_mono (by omega) (by omega)

end HasRoom

namespace Consistent

variable {out : Array type.Carrier} {cols : Interval}

theorem exists_extractSlice_iff_hasRoom (h : table.Consistent heap) (hp : table.pending = none)
    (hw : table.rows ≤ wordLimit) {rows : Interval} (hr : rows.upper < table.rows)
    (hc : cols.upper < table.cols) (hlead : rows.size ≤ lead) :
    (∃ later, table.extractSlice heap type rows cols lead start out = .ok later) ↔
      table.HasRoom type rows.size cols.toList lead start out.size := by
  have hlast : target start lead (rows.size - 1) (cols.toList.length - 1) < out.size ↔
      start + (cols.size - 1) * lead + rows.size ≤ out.size := by
    have := rows.size_pos
    rw [Interval.length_toList, target]
    omega
  have htypes : (∀ col ∈ cols.toList, table.columnType col = .ok type) ↔
      ∀ col ∈ cols, table.columnType col = .ok type := by
    simp only [Interval.mem_toList]
  rw [h.exists_extractSlice_iff hp hw, HasRoom.iff_last rows.size_pos
    (Nat.lt_of_lt_of_eq cols.size_pos cols.length_toList.symm), hlast, htypes]
  exact ⟨fun hall => ⟨hall.2.2.1, hall.2.2.2.2⟩, fun hall => ⟨hr, hc, hall.1, hlead, hall.2⟩⟩

theorem exists_copyRows_iff (h : table.Consistent heap) (hp : table.pending = none)
    (hw : table.rows ≤ wordLimit) {rows : List Interval}
    (hr : ∀ range ∈ rows, range.upper < table.rows) (hc : cols.upper < table.cols)
    (hlead : (rows.flatMap Interval.toList).length ≤ lead) :
    (∃ later, table.copyRows heap type cols lead rows start out = .ok later) ↔
      table.HasRoom type (rows.flatMap Interval.toList).length cols.toList lead start
        out.size := by
  induction rows generalizing start out with
  | nil => exact iff_of_true ⟨out, rfl⟩ fun i j col hi => absurd hi (Nat.not_lt_zero i)
  | cons first rows ih =>
    rw [List.flatMap_cons, List.length_append, Interval.length_toList] at hlead ⊢
    have hfirst : first.size ≤ lead := by omega
    have hrest (middle : Array type.Carrier)
        (hmiddle : table.extractSlice heap type first cols lead start out = .ok middle) :
        (∃ later, table.copyRows heap type cols lead rows (start + first.size) middle =
            .ok later) ↔
          table.HasRoom type (rows.flatMap Interval.toList).length cols.toList lead
            (start + first.size) out.size :=
      (h.puts_extractSlice hmiddle).size ▸
        ih (fun range hm => hr range (by simp [hm])) (by omega)
    rw [copyRows, exists_bind_iff hrest,
      h.exists_extractSlice_iff_hasRoom hp hw (hr first (by simp)) hc hfirst,
      HasRoom.append_rows_iff]

theorem exists_copySelected_iff (h : table.Consistent heap) (hp : table.pending = none)
    (hw : table.rows ≤ wordLimit) {rows cols : List Interval} {done : Nat}
    (hr : ∀ range ∈ rows, range.upper < table.rows)
    (hc : ∀ range ∈ cols, range.upper < table.cols)
    (hlead : (rows.flatMap Interval.toList).length ≤ lead) :
    (∃ later, table.copySelected heap type rows lead cols done out = .ok later) ↔
      table.HasRoom type (rows.flatMap Interval.toList).length
        (cols.flatMap Interval.toList) lead (done * lead) out.size := by
  induction cols generalizing done out with
  | nil => exact iff_of_true ⟨out, rfl⟩ fun i j col _ hcol => by simp at hcol
  | cons first cols ih =>
    have hrest (middle : Array type.Carrier)
        (hmiddle : table.copyRows heap type first lead rows (done * lead) out = .ok middle) :
        (∃ later, table.copySelected heap type rows lead cols (done + first.size) middle =
            .ok later) ↔
          table.HasRoom type (rows.flatMap Interval.toList).length
            (cols.flatMap Interval.toList) lead ((done + first.size) * lead) out.size :=
      (h.copies_copyRows hlead hmiddle).size ▸ ih fun range hm => hc range (by simp [hm])
    rw [copySelected, exists_bind_iff hrest,
      h.exists_copyRows_iff hp hw hr (hc first (by simp)) hlead, List.flatMap_cons,
      HasRoom.append_cols_iff, Interval.length_toList, Nat.add_mul]

end Consistent

/-- The selection under a name that is known, or all cells where no selection exists. -/
theorem requestedSelection_eq_ok_iff {key : String} {requested : Selection × Status} :
    table.requestedSelection key = .ok requested ↔
      (table.selections.isEmpty = true ∨ table.selections.contains key = true) ∧
        requested = (table.selections.findOrNew key,
          if table.selections.isEmpty then .fullExtraction else .success) := by
  rw [requestedSelection, Selections.findOrNew, Keyed.contains]
  cases hempty : table.selections.isEmpty with
  | true =>
    rw [Keyed.isEmpty, List.isEmpty_iff] at hempty
    have hnone : table.selections.find? key = none := by rw [Keyed.find?, hempty]; rfl
    simp [hnone, eq_comm]
  | false =>
    cases table.selections.find? key <;> simp [eq_comm]

section Filled

variable {set : IndexSet} {all : Except TableFault Interval} {bound : Nat}
  (hs : set.Within bound) (ha : ∀ span, all = .ok span ↔ Interval.ofSize 0 bound = .ok span)

include hs ha

theorem exists_filled (hb : 0 < bound) (hw : bound ≤ wordLimit) :
    ∃ filled, (if set.isEmpty then do return set.insert (← all) else .ok set) = .ok filled ∧
      filled.toList = set.orAll bound ∧ filled.Within bound := by
  by_cases hempty : set.isEmpty = true
  · obtain ⟨span, hspan⟩ := Interval.exists_ofSize hb (show 0 + _ ≤ wordLimit by omega)
    obtain ⟨-, -, hupper⟩ := Interval.ofSize_eq_ok hspan
    have hok : (if set.isEmpty then do return set.insert (← all) else .ok set) =
        .ok (set.insert span) := by
      rw [if_pos hempty, (ha span).2 hspan]
      rfl
    exact ⟨set.insert span, hok, toList_filled (fun span => (ha span).1) hok,
      hs.insert (by omega)⟩
  · have hok : (if set.isEmpty then do return set.insert (← all) else .ok set) = .ok set :=
      if_neg hempty
    exact ⟨set, hok, toList_filled (fun span => (ha span).1) hok, hs⟩

theorem pos_of_filled {filled : IndexSet}
    (hok : (if set.isEmpty then do return set.insert (← all) else .ok set) = .ok filled) :
    0 < bound := by
  by_cases hempty : set.isEmpty = true
  · rw [if_pos hempty] at hok
    obtain ⟨span, hspan, -⟩ := bind_eq_ok_iff.1 hok
    exact (Interval.ofSize_eq_ok ((ha span).1 hspan)).1
  · obtain ⟨index, hm⟩ := IndexSet.exists_mem_of_not_isEmpty hempty
    exact Nat.zero_lt_of_lt (hs.lt index hm)

end Filled

def selectedRows (table : Table) (key : String) : List Nat :=
  (table.selections.findOrNew key).rows.orAll table.rows

def selectedCols (table : Table) (key : String) : List Nat :=
  (table.selections.findOrNew key).cols.orAll table.cols

end Table

def Order.run (order : Order) (rows cols : Nat) : Nat :=
  match order with
  | .columnMajor => rows
  | .rowMajor => cols

namespace Table

variable {heap : Heap} {table : Table} {type : ScalarType} {lead start size : Nat}

/-- Where the output has a place for the last cell, only the types of the columns matter. -/
theorem Consistent.exists_copySelected_iff_types (h : table.Consistent heap)
    (hp : table.pending = none) (hw : table.rows ≤ wordLimit) {rows cols : IndexSet}
    {out : Array type.Carrier} (hr : rows.Within table.rows) (hc : cols.Within table.cols)
    (hrows : 0 < rows.toList.length) (hcols : 0 < cols.toList.length)
    (hlead : rows.toList.length ≤ lead)
    (hsize : lead * (cols.toList.length - 1) + rows.toList.length ≤ out.size) :
    (∃ later, table.copySelected heap type rows.intervals lead cols.intervals 0 out =
      .ok later) ↔ ∀ col ∈ cols.toList, table.columnType col = .ok type := by
  have hlast : target (0 * lead) lead (rows.toList.length - 1) (cols.toList.length - 1) <
      out.size := by
    rw [target, Nat.zero_mul, Nat.zero_add, Nat.mul_comm]
    omega
  refine (h.exists_copySelected_iff hp hw (fun _ => hr.upper_lt) (fun _ => hc.upper_lt)
    hlead).trans ?_
  exact (HasRoom.iff_last hrows hcols).trans (and_iff_left hlast)

def copyFilled (heap : Heap) (table : Table) (type : ScalarType) (rows cols : IndexSet)
    (order : Order) (lead : Nat) (out : Array type.Carrier) :
    Except TableFault (Array type.Carrier) := do
  let inner := order.run rows.count cols.count
  require (inner ≤ lead) (.invalidArgument (.narrowSelection lead inner))
  let needed := lead * (order.run cols.count rows.count - 1) + inner
  require (needed ≤ out.size) (.invalidArgument (.shortOutput out.size needed))
  match order with
  | .columnMajor => table.copySelected heap type rows.intervals lead cols.intervals 0 out
  | .rowMajor => do
    let dense ← table.copySelected heap type rows.intervals rows.count cols.intervals 0
      (Array.replicate (rows.count * cols.count) type.blank)
    return transpose rows.count lead dense out

theorem extractSelection_eq (key : String) (order : Order) (out : Array type.Carrier) :
    table.extractSelection heap type key order lead out = (do
      table.checkComplete
      let (selection, status) ← table.requestedSelection key
      let rows ← table.filledRows selection.rows
      let cols ← table.filledCols selection.cols
      return (← table.copyFilled heap type rows cols order lead out, status)) := by
  unfold extractSelection copyFilled
  cases order with
  | columnMajor =>
    simp only [bind_assoc]
    rfl
  | rowMajor =>
    simp only [bind_assoc, pure_bind]
    rfl

namespace Consistent

variable {order : Order} {out : Array type.Carrier}

theorem exists_copyFilled_iff (h : table.Consistent heap) (hp : table.pending = none)
    (hw : table.rows ≤ wordLimit) {rows cols : IndexSet} (hr : rows.Within table.rows)
    (hc : cols.Within table.cols) (hrows : 0 < rows.toList.length)
    (hcols : 0 < cols.toList.length) :
    (∃ later, table.copyFilled heap type rows cols order lead out = .ok later) ↔
      (order.run rows.toList.length cols.toList.length ≤ lead ∧
        order.offset (rows.toList.length - 1) (cols.toList.length - 1) lead lead < out.size) ∧
      ∀ col ∈ cols.toList, table.columnType col = .ok type := by
  have hcopied {lead : Nat} {out : Array type.Carrier} (hlead : rows.toList.length ≤ lead)
      (hsize : lead * (cols.toList.length - 1) + rows.toList.length ≤ out.size) :=
    h.exists_copySelected_iff_types hp hw hr hc hrows hcols hlead hsize
  have hneeded : lead * (order.run cols.toList.length rows.toList.length - 1) +
        order.run rows.toList.length cols.toList.length ≤ out.size ↔
      order.offset (rows.toList.length - 1) (cols.toList.length - 1) lead lead < out.size := by
    cases order with
    | columnMajor =>
      rw [Order.run, Order.run, Order.offset, Nat.mul_comm lead]
      omega
    | rowMajor =>
      rw [Order.run, Order.run, Order.offset, Nat.mul_comm lead]
      omega
  unfold copyFilled
  rw [← rows.length_toList, ← cols.length_toList, ← hneeded, and_assoc]
  refine Iff.trans (exists_bind_iff fun u hlead => exists_bind_iff (Q := ∀ col ∈ cols.toList,
    table.columnType col = .ok type) fun v hsize => ?_) ?_
  · rw [require_eq_ok] at hlead hsize
    cases order with
    | columnMajor => exact hcopied hlead hsize
    | rowMajor =>
      refine (exists_bind_iff fun later _ => iff_true_intro ⟨_, rfl⟩).trans ?_
      refine (and_iff_left trivial).trans (hcopied (Nat.le_refl _) (Nat.le_of_eq ?_))
      rw [Array.size_replicate, ← Nat.mul_succ, Nat.succ_eq_add_one, Nat.sub_add_cancel hcols]
  · simp only [require_eq_ok, exists_const]

/-- An extraction is carried out exactly when the table has columns, the name is known or there are no
selections, the selected columns have the type asked for, and the output has a place for the last
selected cell and as much distance as the cells beside it need. -/
theorem exists_extractSelection_iff (h : table.Consistent heap) (hs : table.SelectionsFit)
    (hp : table.pending = none) (hw : table.rows ≤ wordLimit) (hw' : table.cols ≤ wordLimit)
    {key : String} :
    (∃ result, table.extractSelection heap type key order lead out = .ok result) ↔
      0 < table.cols ∧
        (table.selections.isEmpty = true ∨ table.selections.contains key = true) ∧
        (∀ col ∈ table.selectedCols key, table.columnType col = .ok type) ∧
        order.run (table.selectedRows key).length (table.selectedCols key).length ≤ lead ∧
        order.offset ((table.selectedRows key).length - 1) ((table.selectedCols key).length - 1)
          lead lead < out.size := by
  have hf := hs.findOrNew key
  rw [extractSelection_eq, checkComplete_eq_ok (u := ()) |>.2 hp, ok_bind]
  by_cases hknown : table.selections.isEmpty = true ∨ table.selections.contains key = true
  case neg =>
    refine iff_of_false ?_ fun hall => hknown hall.2.1
    rintro ⟨result, hok⟩
    obtain ⟨requested, hrequested, -⟩ := bind_eq_ok_iff.1 hok
    exact hknown (requestedSelection_eq_ok_iff.1 hrequested).1
  rw [requestedSelection_eq_ok_iff.2 ⟨hknown, rfl⟩, ok_bind]
  by_cases hcols : 0 < table.cols
  case neg =>
    refine iff_of_false ?_ fun hall => hcols hall.1
    rintro ⟨result, hok⟩
    obtain ⟨rows, -, hok⟩ := bind_eq_ok_iff.1 hok
    obtain ⟨cols, hfilled, -⟩ := bind_eq_ok_iff.1 hok
    exact hcols (pos_of_filled hf.cols (fun _ => allCols_eq_ok_iff) hfilled)
  have hrows := h.rows_pos hp hcols
  obtain ⟨rows, hrowsok, hrowlist, hrowfit⟩ :=
    exists_filled hf.rows (fun _ => allRows_eq_ok_iff) hrows hw
  obtain ⟨cols, hcolsok, hcollist, hcolfit⟩ :=
    exists_filled hf.cols (fun _ => allCols_eq_ok_iff) hcols hw'
  have hrowpos : 0 < rows.toList.length := hrowlist ▸ IndexSet.length_orAll_pos _ hrows
  have hcolpos : 0 < cols.toList.length := hcollist ▸ IndexSet.length_orAll_pos _ hcols
  dsimp only
  rw [show table.filledRows _ = .ok rows from hrowsok, ok_bind,
    show table.filledCols _ = .ok cols from hcolsok, ok_bind, selectedRows, selectedCols,
    ← hrowlist, ← hcollist, and_iff_right hcols, and_iff_right hknown, and_comm,
    ← h.exists_copyFilled_iff hp hw hrowfit hcolfit hrowpos hcolpos]
  exact (exists_bind_iff fun later _ => iff_true_intro ⟨_, rfl⟩).trans (and_iff_left trivial)

end Consistent

end Table

namespace Catalog

variable {catalog : Catalog}

/-- The rows and columns of a table are counted in machine words. The indices that an extraction
copies are those of the selection in increasing order, or all where a half is empty or no selection
exists, and no selection has others than those of the table. A complete table is extracted exactly
when it has columns, the name is known or there are no selections, all columns to copy have the type
asked for, `lead` is no less than the number of cells side by side, and the output reaches to the
last cell. Each cell is then at its place, and the output has kept the rest. -/
theorem Reachable.extracts_selections_exactly (h : catalog.Reachable) (number : Nat)
    (hp : (catalog.table number).pending = none) (hw : (catalog.table number).rows ≤ wordLimit)
    (hw' : (catalog.table number).cols ≤ wordLimit) (key : String) :
    (((catalog.table number).selectedRows key).Pairwise (· < ·) ∧
      ∀ row, row ∈ (catalog.table number).selectedRows key ↔ row < (catalog.table number).rows ∧
        (((catalog.table number).selections.findOrNew key).rows.isEmpty = true ∨
          row ∈ ((catalog.table number).selections.findOrNew key).rows)) ∧
    (((catalog.table number).selectedCols key).Pairwise (· < ·) ∧
      ∀ col, col ∈ (catalog.table number).selectedCols key ↔ col < (catalog.table number).cols ∧
        (((catalog.table number).selections.findOrNew key).cols.isEmpty = true ∨
          col ∈ ((catalog.table number).selections.findOrNew key).cols)) ∧
    (∀ other selection, (catalog.table number).selections.find? other = some selection →
      (∀ row ∈ selection.rows, row < (catalog.table number).rows) ∧
      ∀ col ∈ selection.cols, col < (catalog.table number).cols) ∧
    ∀ (type : ScalarType) (order : Order) (lead : Nat) (out : Array type.Carrier),
      ((∃ result, (catalog.table number).extractSelection catalog.heap type key order lead out =
          .ok result) ↔
        0 < (catalog.table number).cols ∧
          ((catalog.table number).selections.isEmpty = true ∨
            (catalog.table number).selections.contains key = true) ∧
          (∀ col ∈ (catalog.table number).selectedCols key,
            (catalog.table number).columnType col = .ok type) ∧
          order.run ((catalog.table number).selectedRows key).length
            ((catalog.table number).selectedCols key).length ≤ lead ∧
          order.offset (((catalog.table number).selectedRows key).length - 1)
            (((catalog.table number).selectedCols key).length - 1) lead lead < out.size) ∧
      ∀ later status,
        (catalog.table number).extractSelection catalog.heap type key order lead out =
          .ok (later, status) →
        (catalog.table number).Extracted catalog.heap type ((catalog.table number).selectedRows key)
          ((catalog.table number).selectedCols key) order lead out later ∧
        status =
          if (catalog.table number).selections.isEmpty then .fullExtraction else .success := by
  have hc := h.consistent number
  have hs := h.selectionsFit number
  have hf := hs.findOrNew key
  refine ⟨⟨hf.rows.pairwise_orAll, fun row => hf.rows.mem_orAll_iff⟩,
    ⟨hf.cols.pairwise_orAll, fun col => hf.cols.mem_orAll_iff⟩,
    fun other selection hfind => ⟨(hs other selection hfind).rows.lt,
      (hs other selection hfind).cols.lt⟩, fun type order lead out => ?_⟩
  have hiff : (∃ result, (catalog.table number).extractSelection catalog.heap type key order lead
      out = .ok result) ↔ _ := hc.exists_extractSelection_iff hs hp hw hw'
  refine ⟨hiff, fun later status hok => ?_⟩
  obtain ⟨-, hknown, -⟩ := hiff.1 ⟨_, hok⟩
  exact hc.extracted_of_requested (Table.requestedSelection_eq_ok_iff.2 ⟨hknown, rfl⟩) hok

def picked : Catalog :=
  patchwork.run
    [.selectSlice 0 "ends" (.point 0) ⟨0, 1, by decide⟩, .selectRows 0 "ends" (.point 2),
      .appendRows 0 .int 1 2 .columnMajor (.copied #[41, 42]),
      .appendRows 0 .str 1 1 .columnMajor (.copied #["d"])]

/-- Two rows with a gap between them, in an output that has just enough room. -/
theorem extracts_selections_exactly_picked :
    (picked.table 0).selectedRows "ends" = [0, 2] ∧
    (∃ result, (picked.table 0).extractSelection picked.heap .int "ends" .rowMajor 3
        (Array.replicate 5 0) = .ok result ∧ result.1[4]? = some (32 : Int64) ∧
        result.1[2]? = some (0 : Int64) ∧ result.2 = .success) ∧
    ¬ ∃ result, (picked.table 0).extractSelection picked.heap .int "ends" .rowMajor 3
        (Array.replicate 4 0) = .ok result := by
  have hr : picked.Reachable := (Reachable.empty.run _).run _
  obtain ⟨-, -, -, hexact⟩ := Reachable.extracts_selections_exactly hr 0 (by decide +kernel)
    (by decide +kernel) (by decide +kernel) "ends"
  have hrows : (picked.table 0).selectedRows "ends" = [0, 2] := by decide +kernel
  have hcols : (picked.table 0).selectedCols "ends" = [0, 1] := by decide +kernel
  have hmany : (picked.table 0).selections.isEmpty = false := by decide +kernel
  rw [hrows, hcols, hmany] at hexact
  refine ⟨hrows, ?_, ?_⟩
  · obtain ⟨hiff, hcopied⟩ := hexact .int .rowMajor 3 (Array.replicate 5 0)
    obtain ⟨⟨later, status⟩, hok⟩ := hiff.2 ⟨by decide +kernel, by decide +kernel,
      by decide +kernel, by decide, by decide⟩
    obtain ⟨hlater, hstatus⟩ := hcopied later status hok
    refine ⟨(later, status), hok, ?_, ?_, hstatus⟩
    · obtain ⟨value, hget, hat⟩ := hlater.copied 1 1 2 1 rfl rfl
      have hfound : (picked.table 0).get picked.heap .int 2 1 = .ok (32 : Int64) := by
        decide +kernel
      rw [Except.ok.inj (hget.symm.trans hfound)] at hat
      exact hat
    · rw [hlater.kept 2 ?_]
      · rfl
      · intro i j hi hj
        simp only [List.length_cons, List.length_nil, Order.offset] at hi hj ⊢
        omega
  · intro hok
    obtain ⟨-, -, -, -, hsize⟩ := (hexact .int .rowMajor 3 (Array.replicate 4 0)).1.1 hok
    exact absurd hsize (by decide)

end Catalog

end TypedTable
