import TypedTable.Proofs.Refusals
import TypedTable.Proofs.Table.Copying

/-!
# Rows with missing values

The marks of the rows are cleared block by block and chain by chain: in the end those are cleared
that have a missing value in an inspected column, and their runs are taken out of the selection.
-/

set_option autoImplicit false

namespace TypedTable

def Cell.missingAt (column : List Cell) (row : Nat) : Bool :=
  column[row]?.any fun cell => cell.type.isMissing cell.value

theorem Cell.missingAt_append (column below : List Cell) (row : Nat) :
    missingAt (column ++ below) row =
      if row < column.length then missingAt column row
      else missingAt below (row - column.length) := by
  split
  next h => rw [missingAt, List.getElem?_append_left h, missingAt]
  next h => rw [missingAt, List.getElem?_append_right (Nat.le_of_not_lt h), missingAt]

section Clears

variable {spoilt spoilt' : Nat → Prop} {mask middle later : List Bool}

/-- `later` has the marks of `mask` except for those of the rows that are `spoilt`. -/
structure Clears (spoilt : Nat → Prop) (mask later : List Bool) : Prop where
  length : later.length = mask.length
  marks : ∀ row, later[row]? = some true ↔ mask[row]? = some true ∧ ¬ spoilt row

namespace Clears

theorem nothing (h : ∀ row, ¬ spoilt row) (mask : List Bool) : Clears spoilt mask mask where
  length := rfl
  marks row := (and_iff_left (h row)).symm

theorem trans (h : Clears spoilt mask middle) (h' : Clears spoilt' middle later) :
    Clears (fun row => spoilt row ∨ spoilt' row) mask later where
  length := h'.length.trans h.length
  marks row := by rw [h'.marks, h.marks, and_assoc, not_or]

/-- It only matters which of the rows with a mark are spoilt. -/
theorem of_iff (h : Clears spoilt mask later)
    (hi : ∀ row, row < mask.length → (spoilt' row ↔ spoilt row)) : Clears spoilt' mask later where
  length := h.length
  marks row := by
    rw [h.marks]
    refine and_congr_right fun hmark => not_congr (hi row ?_).symm
    exact (List.getElem?_eq_some_iff.1 hmark).1

theorem append {below below' : List Bool} (h : Clears spoilt mask later)
    (hb : Clears spoilt' below below') :
    Clears (fun row => if row < mask.length then spoilt row else spoilt' (row - mask.length))
      (mask ++ below) (later ++ below') where
  length := by rw [List.length_append, List.length_append, h.length, hb.length]
  marks row := by
    by_cases hr : row < mask.length
    · rw [if_pos hr, List.getElem?_append_left hr, List.getElem?_append_left (h.length ▸ hr),
        h.marks]
    · have hr' := Nat.le_of_not_lt hr
      rw [if_neg hr, List.getElem?_append_right hr', List.getElem?_append_right (h.length ▸ hr'),
        h.length, hb.marks]

/-- Each of several steps clears the marks of its own rows. -/
theorem foldlM {ε β : Type} {steps : List β} {f : List Bool → β → Except ε (List Bool)}
    {part : β → Nat → Prop}
    (h : ∀ step ∈ steps, ∀ middle later, middle.length = mask.length → f middle step = .ok later →
      Clears (part step) middle later)
    (hok : steps.foldlM f mask = .ok later) :
    Clears (fun row => ∃ step ∈ steps, part step row) mask later := by
  induction steps generalizing mask with
  | nil =>
    cases hok
    exact .nothing (by simp) _
  | cons step steps ih =>
    rw [List.foldlM_cons] at hok
    obtain ⟨middle, hmiddle, hok⟩ := bind_eq_ok_iff.1 hok
    have hfirst := h step (by simp) mask middle rfl hmiddle
    refine .of_iff (hfirst.trans (ih (fun step hm middle later hl => h step (by simp [hm]) middle
      later (hl.trans hfirst.length)) hok)) fun row _ => ?_
    simp only [List.mem_cons, exists_eq_or_imp]

theorem foldl {β : Type} {steps : List β} {f : List Bool → β → List Bool} {part : β → Nat → Prop}
    (h : ∀ step ∈ steps, ∀ mask, Clears (part step) mask (f mask step)) (mask : List Bool) :
    Clears (fun row => ∃ step ∈ steps, part step row) mask (steps.foldl f mask) := by
  have hok : steps.foldlM (fun mask step => (pure (f mask step) : Except Empty (List Bool))) mask =
      .ok (steps.foldl f mask) := List.foldlM_pure
  refine foldlM (fun step hm middle later _ hlater => ?_) hok
  cases hlater
  exact h step hm middle

theorem mark (row : Nat) (mask : List Bool) : Clears (· = row) mask (mask.set row false) where
  length := List.length_set
  marks row' := by
    rcases eq_or_ne row' row with rfl | hne
    · simp [List.getElem?_set_self']
    · rw [List.getElem?_set_ne hne.symm]
      exact (and_iff_left hne).symm

/-- Among rows that all had their marks, the cleared ones are the spoilt ones. -/
theorem cleared_iff {rows : Nat} (h : Clears spoilt (List.replicate rows true) later) (row : Nat) :
    later[row]? = some false ↔ row < rows ∧ spoilt row := by
  have hmarks := h.marks row
  have hlength := h.length
  rw [List.length_replicate] at hlength
  by_cases hr : row < rows
  · rw [List.getElem?_eq_getElem (hlength ▸ hr)] at hmarks ⊢
    simp only [List.getElem?_replicate, hr, if_true, true_and, Option.some.injEq] at hmarks ⊢
    rw [← Bool.not_eq_true, hmarks, not_not]
  · rw [List.getElem?_eq_none (by omega)]
    simp [hr]

end Clears

end Clears

section Blocks

variable {heap : Heap} {cols part : Interval} {mask later : List Bool}

theorem Block.missingAt_column {block : Block} (h : block.Filled heap) {row col : Nat}
    (hr : row < block.rows) (hc : col < block.cols) :
    Cell.missingAt (block.column heap col) row =
      (block.dense.cell? heap row col).any block.type.isMissing := by
  obtain ⟨value, hvalue⟩ := Option.isSome_iff_exists.1 (Dense.Filled.cell?_isSome h hr hc)
  rw [Cell.missingAt, block.getElem?_column heap col hr, cell, hvalue]
  rfl

theorem Dense.clears_maskColumn {type : ScalarType} (dense : Dense type) (rows : Interval)
    (col : Nat) (mask : List Bool) :
    Clears (fun row => row < rows.size ∧
        (dense.cell? heap (rows.lower + row) col).any type.isMissing) mask
      (dense.maskColumn heap rows mask col) := by
  have hstep : ∀ step ∈ rows.toList.zipIdx, ∀ mask,
      Clears (fun row => row = step.2 ∧ (dense.cell? heap step.1 col).any type.isMissing) mask
        (if (dense.cell? heap step.1 col).any type.isMissing then mask.set step.2 false
          else mask) := by
    rintro ⟨row, place⟩ - mask
    split
    next hmissing => exact (Clears.mark place mask).of_iff fun row' _ => and_iff_left hmissing
    next hvalid => exact .nothing (fun row' h => hvalid h.2) mask
  refine (Clears.foldl hstep mask).of_iff fun row _ => ?_
  constructor
  · rintro ⟨hrow, hmissing⟩
    exact ⟨(rows.lower + row, row),
      List.mk_mem_zipIdx_iff_getElem?.2 (Interval.getElem?_toList.2 ⟨hrow, rfl⟩), rfl, hmissing⟩
  · rintro ⟨⟨found, place⟩, hm, rfl, hmissing⟩
    rw [List.mk_mem_zipIdx_iff_getElem?, Interval.getElem?_toList] at hm
    obtain ⟨hrow, rfl⟩ := hm
    exact ⟨hrow, hmissing⟩

theorem Block.clears_maskMissing {block : Block} {rows : Interval} (h : block.Filled heap)
    (hrows : Interval.ofSize 0 block.rows = .ok rows) (hl : mask.length ≤ block.rows)
    (hok : block.dense.maskMissing heap mask rows cols = .ok later) :
    mask.length = block.rows ∧
      Clears (fun row => ∃ col ∈ cols, Cell.missingAt (block.column heap col) row) mask later := by
  obtain ⟨-, hlower, hupper⟩ := Interval.ofSize_eq_ok hrows
  have hsize : rows.size = block.rows := by
    simp only [Interval.size]
    omega
  obtain ⟨u, hcheck, hok⟩ := bind_eq_ok_iff.1 hok
  obtain ⟨-, hc⟩ := Dense.checkCell_eq_ok.1 hcheck
  split at hok
  next => cases hok
  next hlong =>
    have hlength : mask.length = block.rows := by omega
    refine ⟨hlength, ?_⟩
    have hmissing (row : Nat) (hr : row < mask.length) (col : Nat) (hcol : col ∈ cols) :
        Cell.missingAt (block.column heap col) row ↔
          (block.dense.cell? heap row col).any block.type.isMissing := by
      rw [block.missingAt_column h (hlength ▸ hr) (Nat.lt_of_le_of_lt hcol.2 hc)]
    split at hok
    next hnone =>
      -- no value of this type is a missing one
      cases hok
      refine (Clears.nothing (fun _ => not_false) mask).of_iff fun row hr =>
        iff_false_intro ?_
      rintro ⟨col, hcol, hspoilt⟩
      rw [hmissing row hr col hcol, Option.any_eq_true] at hspoilt
      obtain ⟨value, -, hvalue⟩ := hspoilt
      rw [ScalarType.isMissing_of_not_hasSentinel (by simpa using hnone)] at hvalue
      cases hvalue
    next =>
      cases hok
      refine (Clears.foldl (fun col _ mask => block.dense.clears_maskColumn rows col mask)
        mask).of_iff fun row hr => exists_congr fun col => ?_
      rw [Interval.mem_toList]
      refine and_congr_right fun hcol => ?_
      rw [hmissing row hr col hcol, hsize, hlower, Nat.zero_add, and_iff_right (hlength ▸ hr)]

theorem Segment.clears_maskMissing {arena : Arena} {chain : List Placement}
    {segments : List Segment} (hs : chain.mapM arena.segment = .ok segments)
    (hoffset : ∀ placement ∈ chain, placement.offset ≤ part.lower)
    (hfilled : ∀ block ∈ arena.blocks, block.Filled heap)
    (hl : mask.length = arena.height chain)
    (hok : maskMissing heap part segments mask = .ok later) :
    Clears (fun row => ∃ col ∈ part, Cell.missingAt (arena.column heap col chain) row) mask
      later := by
  -- each block clears its part of the mask, and its rows come before those of the blocks below
  induction chain generalizing segments mask later with
  | nil =>
    cases hs
    cases hok
    exact .nothing (by simp [Arena.column, Cell.missingAt]) _
  | cons placement below ih =>
    obtain ⟨block, rest, hblock, rfl, hrest⟩ := Arena.segments_cons hs
    obtain ⟨rows, hrows, hok⟩ := bind_eq_ok_iff.1 hok
    obtain ⟨cols, hcols, hok⟩ := bind_eq_ok_iff.1 hok
    obtain ⟨top, htop, hok⟩ := bind_eq_ok_iff.1 hok
    obtain ⟨bottom, hbottom, hok⟩ := bind_eq_ok_iff.1 hok
    cases hok
    have hlower := hoffset placement (by simp)
    have hheight : arena.height (placement :: below) = block.rows + arena.height below := by
      simp [Arena.height, hblock]
    have hlocal (col : Nat) : col ∈ cols ↔ col + placement.offset ∈ part := by
      obtain ⟨hfirst, hlast⟩ := Interval.ofBounds_eq_ok hcols
      have := part.lower_le_upper
      simp only [Interval.mem_def, hfirst, hlast]
      omega
    obtain ⟨hlength, hhere⟩ := Block.clears_maskMissing
      (hfilled block (Array.mem_of_getElem? hblock)) hrows (List.length_take_le ..) htop
    have hdown : Clears _ (mask.drop block.rows) bottom :=
      ih hrest (fun p hp => hoffset p (by simp [hp])) (by
        rw [List.length_drop, hl, hheight]
        exact Nat.add_sub_cancel_left ..) hbottom
    have hboth := hhere.append hdown
    rw [List.take_append_drop, hlength] at hboth
    refine hboth.of_iff fun row _ => ?_
    simp only [Arena.column_cons hblock, Cell.missingAt_append, Block.length_column]
    split
    next =>
      constructor
      · rintro ⟨col, hcol, hmissing⟩
        refine ⟨col - placement.offset, (hlocal _).2 ?_, hmissing⟩
        rwa [Nat.sub_add_cancel (Nat.le_trans hlower hcol.1)]
      · rintro ⟨col, hcol, hmissing⟩
        refine ⟨col + placement.offset, (hlocal col).1 hcol, ?_⟩
        rwa [Nat.add_sub_cancel]
    next => exact Iff.rfl

end Blocks

/-- A run ends before the row with the next mark that is set. -/
theorem Interval.exists_run {lower first : Nat} (h : lower < first) :
    ∃ run, Interval.ofBounds lower (first - 1) = .ok run ∧
      ∀ row, row ∈ run ↔ lower ≤ row ∧ row < first := by
  refine ⟨⟨lower, first - 1, Nat.le_sub_one_of_lt h⟩, dif_pos _, fun row => ?_⟩
  rw [Interval.mem_def]
  dsimp only
  omega

theorem Table.cleared_cons_iff {mark : Bool} {rest : List Bool} {first row : Nat} :
    first ≤ row ∧ (mark :: rest)[row - first]? = some false ↔
      row = first ∧ mark = false ∨ first + 1 ≤ row ∧ rest[row - (first + 1)]? = some false := by
  rcases Nat.lt_trichotomy row first with hlt | rfl | hgt
  · simp only [Nat.not_le.2 hlt, Nat.ne_of_lt hlt, false_and, false_or, false_iff]
    omega
  · simp only [Nat.le_refl, true_and, Nat.sub_self, List.getElem?_cons_zero, Option.some.injEq,
      Nat.not_succ_le_self, false_and, or_false]
  · rw [show row - first = row - (first + 1) + 1 by omega, List.getElem?_cons_succ]
    simp [Nat.ne_of_gt hgt, Nat.le_of_lt hgt, Nat.succ_le_of_lt hgt]

/-- Of the rows that are taken out of a set, those before `first` are of the run that began at
`start`, and the others are those with a cleared mark. -/
theorem Table.exists_runs {mask : List Bool} {first : Nat} {start : Option Nat}
    (hs : ∀ lower ∈ start, lower < first) (rows : IndexSet) :
    ∃ runs : List Interval,
      eraseCleared (mask ++ [true]) first start rows = .ok (runs.foldl IndexSet.erase rows) ∧
      ∀ row, (∃ run ∈ runs, row ∈ run) ↔ (∃ lower ∈ start, lower ≤ row ∧ row < first) ∨
        first ≤ row ∧ mask[row - first]? = some false := by
  induction mask generalizing first start rows with
  | nil =>
    cases start with
    | none => exact ⟨[], rfl, by simp⟩
    | some lower =>
      obtain ⟨run, hrun, hin⟩ := Interval.exists_run (hs lower rfl)
      refine ⟨[run], ?_, fun row => ?_⟩
      · rw [List.nil_append, eraseCleared, hrun]
        rfl
      · simp only [List.mem_singleton, exists_eq_left, hin]
        simp
  | cons mark rest ih =>
    -- a cleared mark begins a run or goes on with it, and one that is set ends it
    match mark, start with
    | false, none =>
      obtain ⟨runs, hok, hmem⟩ := @ih (first + 1) (some first) (by simp) rows
      refine ⟨runs, hok, fun row => (hmem row).trans ?_⟩
      rw [cleared_cons_iff, ← or_assoc]
      refine or_congr_left ?_
      simp
      omega
    | false, some lower =>
      have := hs lower rfl
      obtain ⟨runs, hok, hmem⟩ := @ih (first + 1) (some lower) (by simp; omega) rows
      refine ⟨runs, hok, fun row => (hmem row).trans ?_⟩
      rw [cleared_cons_iff, ← or_assoc]
      refine or_congr_left ?_
      simp
      omega
    | true, none =>
      obtain ⟨runs, hok, hmem⟩ := @ih (first + 1) none (by simp) rows
      refine ⟨runs, hok, fun row => (hmem row).trans ?_⟩
      rw [cleared_cons_iff]
      simp
    | true, some lower =>
      obtain ⟨run, hrun, hin⟩ := Interval.exists_run (hs lower rfl)
      obtain ⟨runs, hok, hmem⟩ := @ih (first + 1) none (by simp) (rows.erase run)
      refine ⟨run :: runs, ?_, fun row => ?_⟩
      · rw [List.cons_append, eraseCleared, hrun]
        exact hok
      · simp only [List.mem_cons, exists_eq_or_imp, hmem, cleared_cons_iff, hin]
        simp

/-- The rows that are taken out of a set are those with a cleared mark. -/
theorem Table.exists_cleared (mask : List Bool) (rows : IndexSet) :
    ∃ runs : List Interval,
      eraseCleared (mask ++ [true]) 0 none rows = .ok (runs.foldl IndexSet.erase rows) ∧
      ∀ row, (∃ run ∈ runs, row ∈ run) ↔ mask[row]? = some false := by
  obtain ⟨runs, hok, hmem⟩ := @exists_runs mask 0 none (by simp) rows
  exact ⟨runs, hok, fun row => (hmem row).trans (by simp)⟩

namespace Table

variable {heap : Heap} {table later : Table} {key : String} {fullRows : Bool}

namespace Consistent

theorem clears_maskChain (h : table.Consistent heap) (hp : table.pending = none)
    {entry : Interval × Nat} (hm : entry ∈ table.chains.entries) {cols : Interval}
    {mask marked : List Bool} (hl : mask.length = table.rows)
    (hok : maskChain heap table.arena cols mask entry = .ok marked) :
    Clears (fun row => ∃ col ∈ cols, col ∈ entry.1 ∧
      Cell.missingAt (table.column heap col) row) mask marked := by
  unfold maskChain at hok
  split at hok
  next hnone =>
    cases hok
    refine .nothing ?_ _
    rintro row ⟨col, hcol, hin, -⟩
    exact Interval.intersect_eq_none_iff.1 hnone col hin hcol
  next part hpart =>
    obtain ⟨segments, hsegments, hok⟩ := bind_eq_ok_iff.1 hok
    have hmem := Interval.mem_of_intersect hpart
    have hlower := ((hmem part.lower).1 ⟨Nat.le_refl _, part.lower_le_upper⟩).1.1
    have hcleared := Segment.clears_maskMissing hsegments
      (fun placement hplacement => Nat.le_trans (h.offset_le hm hplacement) hlower) h.filled
      (hl.trans (h.height_eq hp hm).symm) hok
    refine hcleared.of_iff fun row _ => exists_congr fun col => ?_
    rw [hmem, ← and_assoc, and_comm (a := col ∈ cols)]
    refine and_congr_right fun hcol => ?_
    rw [h.column_of_mem hm hcol.1]

theorem clears_maskChains (h : table.Consistent heap) (hp : table.pending = none)
    {cols : Interval} {mask marked : List Bool} (hl : mask.length = table.rows)
    (hok : (table.chains.range cols).foldlM (maskChain heap table.arena cols) mask = .ok marked) :
    Clears (fun row => ∃ entry ∈ table.chains.range cols, ∃ col ∈ cols, col ∈ entry.1 ∧
      Cell.missingAt (table.column heap col) row) mask marked :=
  Clears.foldlM (fun _ hm _ _ hlength hstep =>
    h.clears_maskChain hp (h.mem_range_iff.1 hm).1 (hlength.trans hl) hstep) hok

/-- The marks that are left are those of the rows without missing values. -/
theorem clears_validRows (h : table.Consistent heap) (hp : table.pending = none)
    {inspected : IndexSet} {valid : List Bool} (hok : table.validRows heap inspected = .ok valid) :
    Clears (fun row => ∃ col ∈ inspected, col < table.cols ∧
      Cell.missingAt (table.column heap col) row) (List.replicate table.rows true) valid := by
  have hstep : ∀ cols ∈ inspected.intervals, ∀ mask marked : List Bool,
      mask.length = (List.replicate table.rows true).length →
      (table.chains.range cols).foldlM (maskChain heap table.arena cols) mask = .ok marked →
      Clears (fun row => ∃ entry ∈ table.chains.range cols, ∃ col ∈ cols, col ∈ entry.1 ∧
        Cell.missingAt (table.column heap col) row) mask marked :=
    fun _ _ _ _ hl hok => h.clears_maskChains hp (hl.trans List.length_replicate) hok
  refine (Clears.foldlM hstep hok).of_iff fun row _ => ?_
  constructor
  · rintro ⟨col, ⟨cols, hcols, hcol⟩, hlt, hmissing⟩
    obtain ⟨entry, hm, hin⟩ := h.exists_entry hlt
    refine ⟨cols, hcols, entry, h.mem_range_iff.2 ⟨hm, Interval.meets_iff.2 ?_⟩, col, hcol, hin,
      hmissing⟩
    rw [Interval.mem_def] at hcol hin
    omega
  · rintro ⟨cols, hcols, entry, hm, col, hcol, hin, hmissing⟩
    have := h.lt_cols (h.mem_range_iff.1 hm).1
    exact ⟨col, ⟨cols, hcols, hcol⟩, Nat.lt_of_le_of_lt hin.2 this, hmissing⟩

end Consistent

def Inspects (table : Table) (key : String) (fullRows : Bool) (col : Nat) : Prop :=
  fullRows = true ∨ (table.selections.findOrNew key).cols.isEmpty = true ∨
    col ∈ (table.selections.findOrNew key).cols

def HasGap (heap : Heap) (table : Table) (key : String) (fullRows : Bool) (row : Nat) : Prop :=
  ∃ (col : Nat) (type : ScalarType) (value : type.Carrier), table.Inspects key fullRows col ∧
    table.get heap type row col = .ok value ∧ type.isMissing value = true

/-- A row with a missing value in an inspected column loses its mark. -/
theorem Consistent.cleared_of_hasGap (h : table.Consistent heap) {allCols : Interval}
    (hcols : table.allCols = .ok allCols) {valid : List Bool}
    (hvalid : table.validRows heap
      (if fullRows = true ∨ (table.selections.findOrNew key).cols.isEmpty = true
        then IndexSet.empty.insert allCols else (table.selections.findOrNew key).cols) = .ok valid)
    {row : Nat} (hg : table.HasGap heap key fullRows row) : valid[row]? = some false := by
  obtain ⟨col, type, value, hinspected, hget, hmissing⟩ := hg
  obtain ⟨place, hplace, -⟩ := bind_eq_ok_iff.1 hget
  obtain ⟨hp, hr, hc, -⟩ := h.located_of_ok hplace
  obtain ⟨-, hlower, hupper⟩ := Interval.ofSize_eq_ok (allCols_eq_ok_iff.1 hcols)
  have hheld : (table.column heap col)[row]? = some ⟨type, value⟩ := h.holds_of_get hget
  have hgap : Cell.missingAt (table.column heap col) row = true := by
    rw [Cell.missingAt, hheld]
    exact hmissing
  refine ((h.clears_validRows hp hvalid).cleared_iff row).2 ⟨hr, col, ?_, hc, hgap⟩
  split
  next =>
    rw [IndexSet.mem_empty_insert, Interval.mem_def]
    omega
  next hneither => exact (or_assoc.2 hinspected).resolve_left hneither

/-- The selection after the rows with missing values are removed: none of them is in it, and unless
it had no rows before, it has no new ones. -/
theorem Consistent.selectNonMissing_eq_ok (h : table.Consistent heap)
    (hok : table.selectNonMissing heap key fullRows = .ok later) :
    ∃ rows : IndexSet, later = table.withSelection key
        { table.selections.findOrNew key with rows := rows } ∧
      (∀ row ∈ rows, ¬ table.HasGap heap key fullRows row) ∧
      ((table.selections.findOrNew key).rows.isEmpty = false →
        ∀ row ∈ rows, row ∈ (table.selections.findOrNew key).rows) := by
  obtain ⟨u, -, hok⟩ := refuse_bind_eq_ok_iff.1 hok
  obtain ⟨allRows, -, hok⟩ := refuse_bind_eq_ok_iff.1 hok
  obtain ⟨allCols, hcols, hok⟩ := refuse_bind_eq_ok_iff.1 hok
  obtain ⟨valid, hvalid, hok⟩ := refuse_bind_eq_ok_iff.1 hok
  obtain ⟨rows, herased, hok⟩ := refuse_bind_eq_ok_iff.1 hok
  cases hok
  obtain ⟨runs, hruns, hmem⟩ := exists_cleared valid _
  obtain rfl := Except.ok.inj (herased.symm.trans hruns)
  refine ⟨_, rfl, fun row hrow hgap => ?_, fun hsome row hrow => ?_⟩
  · obtain ⟨run, hrun, hin⟩ := (hmem row).2 (h.cleared_of_hasGap hcols hvalid hgap)
    exact (IndexSet.mem_foldl_erase.1 hrow).2 run hrun hin
  · have hfirst := (IndexSet.mem_foldl_erase.1 hrow).1
    rwa [if_neg (Bool.not_eq_true _ ▸ hsome)] at hfirst

end Table

end TypedTable
