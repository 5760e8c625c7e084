import TypedTable.Proofs.Table.Fitting
import TypedTable.Proofs.Table.Missing
import TypedTable.Proofs.Table.Slicing

/-!
# The rows that a selection of complete rows keeps

On a complete table no step of masking the rows is refused, and the marks that are cleared are just
those of the rows with a missing value in an inspected column. So these rows and no others are
removed.
-/

set_option autoImplicit false

namespace TypedTable

section Blocks

variable {heap : Heap} {part : Interval} {mask : List Bool}

theorem Dense.exists_maskMissing {type : ScalarType} {dense : Dense type} {rows cols : Interval}
    (hr : rows.upper < dense.rows) (hc : cols.upper < dense.cols) (hl : rows.size ≤ mask.length) :
    ∃ later, dense.maskMissing heap mask rows cols = .ok later := by
  unfold maskMissing
  rw [checkRectangle, checkCell_eq_ok (u := ()) |>.2 ⟨hr, hc⟩, ok_bind, if_neg (Nat.not_lt.2 hl)]
  split
  · exact ⟨mask, rfl⟩
  · exact ⟨_, rfl⟩

/-- The marks of a chain are cleared block by block if there are as many marks as rows. -/
theorem Segment.exists_maskMissing {arena : Arena} {chain : List Placement}
    {segments : List Segment} (hs : chain.mapM arena.segment = .ok segments)
    (hplaced : ∀ placement ∈ chain, ∃ block, arena.blocks[placement.block]? = some block ∧
      part.upper - placement.offset < block.cols ∧ 0 < block.rows)
    (hw : arena.height chain ≤ wordLimit) (hl : mask.length = arena.height chain) :
    ∃ later, maskMissing heap part segments mask = .ok later := by
  induction chain generalizing segments mask with
  | nil =>
    cases hs
    exact ⟨mask, rfl⟩
  | cons placement below ih =>
    obtain ⟨block, rest, hblock, rfl, hrest⟩ := Arena.segments_cons hs
    obtain ⟨found, hfound, hcols, hpos⟩ := hplaced placement (by simp)
    obtain rfl := Option.some.inj (hblock.symm.trans hfound)
    have hheight : arena.height (placement :: below) = block.rows + arena.height below := by
      simp [Arena.height, hblock]
    rw [hheight] at hw hl
    have hspan : 0 + block.rows ≤ wordLimit := by omega
    obtain ⟨rows, hrows⟩ := Interval.exists_ofSize hpos hspan
    obtain ⟨-, hlower, hupper⟩ := Interval.ofSize_eq_ok hrows
    obtain ⟨cols, hlocal⟩ := Interval.exists_ofBounds
      (Nat.sub_le_sub_right part.lower_le_upper placement.offset)
    obtain ⟨-, hlast⟩ := Interval.ofBounds_eq_ok hlocal
    have hsize : rows.size ≤ (mask.take block.rows).length := by
      rw [List.length_take, Interval.size]
      omega
    have hdrop : (mask.drop block.rows).length = arena.height below := by
      rw [List.length_drop]
      omega
    have hfirst : rows.upper < block.rows := by omega
    obtain ⟨top, htop⟩ : ∃ top, block.dense.maskMissing heap (mask.take block.rows) rows cols =
        .ok top := Dense.exists_maskMissing hfirst (hlast ▸ hcols) hsize
    obtain ⟨bottom, hbottom⟩ :=
      ih hrest (fun p hp => hplaced p (by simp [hp])) (by omega) hdrop
    refine ⟨top ++ bottom, ?_⟩
    rw [maskMissing]
    exact bind_eq_ok_iff.2 ⟨rows, hrows, bind_eq_ok_iff.2 ⟨cols, hlocal, bind_eq_ok_iff.2
      ⟨top, htop, bind_eq_ok_iff.2 ⟨bottom, hbottom, rfl⟩⟩⟩⟩

end Blocks

namespace Table

variable {heap : Heap} {table : Table} {key : String} {fullRows : Bool}

namespace Consistent

theorem exists_maskChain (h : table.Consistent heap) (hp : table.pending = none)
    (hw : table.rows ≤ wordLimit) {entry : Interval × Nat} (hm : entry ∈ table.chains.entries)
    {cols : Interval} {mask : List Bool} (hl : mask.length = table.rows) :
    ∃ marked, maskChain heap table.arena cols mask entry = .ok marked := by
  unfold maskChain
  split
  next => exact ⟨mask, rfl⟩
  next part hpart =>
    have hupper := (Interval.mem_of_intersect hpart part.upper).1
      ⟨part.lower_le_upper, Nat.le_refl _⟩
    have hheight := h.height_eq hp hm
    obtain ⟨segments, hsegments⟩ := h.exists_segments hm
    obtain ⟨type, htype, -⟩ := h.chainType_eq hm
    rw [hsegments, ok_bind]
    refine Segment.exists_maskMissing hsegments (fun placement hplacement => ?_) (by omega)
      (hl.trans hheight.symm)
    obtain ⟨block, hblock, -, -, hcols, hfilled⟩ := h.placed_of_type hm htype hplacement
    have := hupper.1.2
    exact ⟨block, hblock, by omega, hfilled.rows_pos⟩

theorem exists_validRows (h : table.Consistent heap) (hp : table.pending = none)
    (hw : table.rows ≤ wordLimit) (inspected : IndexSet) :
    ∃ valid, table.validRows heap inspected = .ok valid := by
  have hchains (cols : Interval) {mask : List Bool} (hl : mask.length = table.rows) :
      ∃ marked, (table.chains.range cols).foldlM (maskChain heap table.arena cols) mask =
        .ok marked := by
    refine (exists_foldlM_iff (P := fun mask => mask.length = table.rows) (Q := fun _ => True)
      (fun entry hm mask hl => ?_) (fun entry hm mask marked hl hok => ?_) hl).2 fun _ _ => trivial
    · exact iff_true_intro (h.exists_maskChain hp hw (h.mem_range_iff.1 hm).1 hl)
    · exact (h.clears_maskChain hp (h.mem_range_iff.1 hm).1 hl hok).length.trans hl
  unfold validRows
  refine (exists_foldlM_iff (P := fun mask => mask.length = table.rows) (Q := fun _ => True)
    (fun cols _ mask hl => iff_true_intro (hchains cols hl)) (fun cols _ mask marked hl hok => ?_)
    List.length_replicate).2 fun _ _ => trivial
  exact (h.clears_maskChains hp hl hok).length.trans hl

/-- The marks that are cleared are those of the rows with a missing value in an inspected column. -/
theorem cleared_iff_hasGap (h : table.Consistent heap) (hp : table.pending = none)
    {allCols : Interval} (hcols : table.allCols = .ok allCols) {valid : List Bool}
    (hvalid : table.validRows heap
      (if fullRows = true ∨ (table.selections.findOrNew key).cols.isEmpty = true
        then IndexSet.empty.insert allCols else (table.selections.findOrNew key).cols) = .ok valid)
    {row : Nat} : valid[row]? = some false ↔ table.HasGap heap key fullRows row := by
  refine ⟨fun hcleared => ?_, h.cleared_of_hasGap hcols hvalid⟩
  obtain ⟨hr, col, hinspected, hc, hmissing⟩ :=
    ((h.clears_validRows hp hvalid).cleared_iff row).1 hcleared
  rw [Cell.missingAt, Option.any_eq_true_iff_get] at hmissing
  obtain ⟨hsome, hgap⟩ := hmissing
  have hheld := h.get_of_holds hp (Option.some_get hsome).symm
  refine ⟨col, _, _, ?_, hheld, hgap⟩
  rw [Inspects, ← or_assoc]
  by_cases hall : fullRows = true ∨ (table.selections.findOrNew key).cols.isEmpty = true
  · exact .inl hall
  · rw [if_neg hall] at hinspected
    exact .inr hinspected

/-- The rows that are left are those without a missing value in an inspected column; where the
selection had no rows it starts from all of them. -/
theorem selectNonMissing_of_complete (h : table.Consistent heap) (hp : table.pending = none)
    (hr : 0 < table.rows) (hw : table.rows ≤ wordLimit) (hc : table.cols ≤ wordLimit)
    (key : String) (fullRows : Bool) :
    ∃ rows : IndexSet, table.selectNonMissing heap key fullRows = .ok (table.withSelection key
        { table.selections.findOrNew key with rows := rows }) ∧
      ∀ row, row ∈ rows ↔ row ∈ (table.selections.findOrNew key).rows.orAll table.rows ∧
        ¬ table.HasGap heap key fullRows row := by
  have hcols : 0 < table.cols := Nat.pos_of_ne_zero fun hzero => by
    rw [h.noRows hzero] at hr
    exact Nat.lt_irrefl 0 hr
  have hspan : 0 + table.rows ≤ wordLimit := by omega
  have hspan' : 0 + table.cols ≤ wordLimit := by omega
  obtain ⟨allRows, hrows⟩ := Interval.exists_ofSize hr hspan
  obtain ⟨allCols, hcolumns⟩ := Interval.exists_ofSize hcols hspan'
  obtain ⟨-, hlower, hupper⟩ := Interval.ofSize_eq_ok hrows
  have hallRows : table.allRows = .ok allRows := by rw [Table.allRows, hrows]
  have hallCols : table.allCols = .ok allCols := by rw [Table.allCols, hcolumns]
  obtain ⟨valid, hvalid⟩ := h.exists_validRows hp hw
    (if fullRows = true ∨ (table.selections.findOrNew key).cols.isEmpty = true
      then IndexSet.empty.insert allCols else (table.selections.findOrNew key).cols)
  obtain ⟨runs, herased, hruns⟩ := exists_cleared valid
    (if (table.selections.findOrNew key).rows.isEmpty = true
      then (table.selections.findOrNew key).rows.insert allRows
      else (table.selections.findOrNew key).rows)
  refine ⟨runs.foldl IndexSet.erase (if (table.selections.findOrNew key).rows.isEmpty = true
    then (table.selections.findOrNew key).rows.insert allRows
    else (table.selections.findOrNew key).rows), ?_, fun row => ?_⟩
  · simp only [Table.selectNonMissing, checkComplete_eq_ok (u := ()) |>.2 hp, hallRows, hallCols,
      refuse_ok, ok_bind, hvalid, herased, pure_eq_ok]
  · rw [IndexSet.mem_foldl_erase, ← h.cleared_iff_hasGap hp hallCols hvalid, ← hruns]
    refine and_congr ?_ (by simp only [not_exists, not_and])
    rw [IndexSet.orAll]
    split
    next hempty =>
      rw [IndexSet.isEmpty_iff.1 hempty, IndexSet.mem_empty_insert, List.mem_range,
        Interval.mem_def]
      omega
    next => exact IndexSet.mem_toList.symm

end Consistent

theorem hasGap_iff (h : table.Consistent heap) {row : Nat} :
    table.HasGap heap key fullRows row ↔
      ∃ col < table.cols, table.Inspects key fullRows col ∧
        ∃ (type : ScalarType) (value : type.Carrier), type ≠ .str ∧
          table.get heap type row col = .ok value ∧ type.isMissing value = true := by
  constructor
  · rintro ⟨col, type, value, hinspects, hget, hmissing⟩
    obtain ⟨place, hplace, -⟩ := bind_eq_ok_iff.1 hget
    obtain ⟨-, -, hc, -⟩ := h.located_of_ok hplace
    refine ⟨col, hc, hinspects, type, value, ?_, hget, hmissing⟩
    rintro rfl
    rw [ScalarType.isMissing_of_not_hasSentinel rfl] at hmissing
    cases hmissing
  · rintro ⟨col, -, hinspects, type, value, -, hget, hmissing⟩
    exact ⟨col, type, value, hinspects, hget, hmissing⟩

end Table

namespace Catalog

variable {catalog : Catalog}

/-- The rows and columns of a table are counted in machine words. On a complete table with columns
the rows with missing values can always be removed from a selection: from the rows it had, or from
all rows if it had none, the rows go that have the mark for a missing entry in an inspected column,
which is never one of texts. Nothing else changes. -/
theorem Reachable.gaps_removed_exactly (h : catalog.Reachable) (number : Nat)
    (hp : (catalog.table number).pending = none) (hc : 0 < (catalog.table number).cols)
    (hw : (catalog.table number).rows ≤ wordLimit) (hw' : (catalog.table number).cols ≤ wordLimit)
    (key : String) (fullRows : Bool) :
    ∃ (filtered : Catalog) (rows : IndexSet),
      catalog.perform (.selectNonMissing number key fullRows) = (filtered, .ok .success) ∧
      (filtered.table number).selections.find? key =
        some { (catalog.table number).selections.findOrNew key with rows := rows } ∧
      rows.Gapped ∧
      (∀ row, row ∈ rows ↔
        (row < (catalog.table number).rows ∧
          (((catalog.table number).selections.findOrNew key).rows.isEmpty = true ∨
            row ∈ ((catalog.table number).selections.findOrNew key).rows)) ∧
        ¬ ∃ col < (catalog.table number).cols,
          (fullRows = true ∨
            ((catalog.table number).selections.findOrNew key).cols.isEmpty = true ∨
            col ∈ ((catalog.table number).selections.findOrNew key).cols) ∧
          ∃ (type : ScalarType) (value : type.Carrier), type ≠ .str ∧
            (catalog.table number).get catalog.heap type row col = .ok value ∧
            type.isMissing value = true) ∧
      (∀ other, other ≠ key → (filtered.table number).selections.find? other =
        (catalog.table number).selections.find? other) ∧
      filtered.table number =
        { catalog.table number with selections := (filtered.table number).selections } ∧
      filtered.heap = catalog.heap ∧
      ∀ other, other ≠ number → filtered.table other = catalog.table other := by
  have hconsistent := h.consistent number
  obtain ⟨rows, hok, hmem⟩ := hconsistent.selectNonMissing_of_complete hp
    (hconsistent.rows_pos hp hc) hw hw' key fullRows
  have hperform : catalog.perform (.selectNonMissing number key fullRows) = (_, .ok .success) :=
    congrArg (catalog.replace number) hok
  refine ⟨_, rows, hperform, ?_, ?_, fun row => ?_, fun other hother => ?_, ?_, rfl,
    fun other hother => ?_⟩
  · rw [table_put_self, Table.find?_withSelection, if_pos rfl]
  · have hlater := (h.perform (.selectNonMissing number key fullRows)).selectionsFit number
    rw [hperform, table_put_self] at hlater
    exact (hlater key _ (by rw [Table.find?_withSelection, if_pos rfl])).rows.gapped
  · rw [hmem, Table.hasGap_iff hconsistent]
    exact and_congr_left' ((h.selectionsFit number).findOrNew key).rows.mem_orAll_iff
  · rw [table_put_self, Table.find?_withSelection, if_neg hother]
  · rw [table_put_self]
    rfl
  · rw [table_put, if_neg hother]

/-- Each column has two blocks; both blocks of the integers end with the mark for a missing entry. -/
def spoilt : Catalog :=
  Catalog.empty.run
    [.appendColumns 0 .int 2 1 .columnMajor (.copied #[10, Int64.maxValue]),
      .appendColumns 0 .str 2 1 .columnMajor (.copied #["", "b"]),
      .appendRows 0 .int 2 1 .columnMajor (.copied #[30, Int64.maxValue]),
      .appendRows 0 .str 2 1 .columnMajor (.copied #["", "d"])]

theorem gaps_removed_exactly_spoilt :
    ∃ filtered rows, spoilt.perform (.selectNonMissing 0 "kept" false) = (filtered, .ok .success) ∧
      (filtered.table 0).selections.find? "kept" = some { rows := rows } ∧
      rows = ⟨[.point 0, .point 2]⟩ ∧ 1 ∉ rows ∧ 3 ∉ rows := by
  have hr : spoilt.Reachable := Reachable.empty.run _
  obtain ⟨filtered, rows, hperform, hfind, -, hmem, -⟩ := Reachable.gaps_removed_exactly hr 0
    (by decide +kernel) (by decide +kernel) (by decide +kernel) (by decide +kernel) "kept" false
  have hnew : (spoilt.table 0).selections.findOrNew "kept" = {} := by decide +kernel
  rw [hnew] at hfind hmem
  refine ⟨filtered, rows, hperform, hfind, ?_, fun hrow => ?_, fun hrow => ?_⟩
  · have hfound : ((spoilt.perform (.selectNonMissing 0 "kept" false)).1.table 0).selections.find?
        "kept" = some { rows := ⟨[.point 0, .point 2]⟩ } := by decide +kernel
    rw [hperform] at hfound
    exact congrArg Selection.rows (Option.some.inj (hfind.symm.trans hfound))
  · exact ((hmem 1).1 hrow).2 ⟨0, by decide +kernel, .inr (.inl rfl), .int, Int64.maxValue,
      by decide, by decide +kernel, by decide⟩
  · exact ((hmem 3).1 hrow).2 ⟨0, by decide +kernel, .inr (.inl rfl), .int, Int64.maxValue,
      by decide, by decide +kernel, by decide⟩

end Catalog

end TypedTable
