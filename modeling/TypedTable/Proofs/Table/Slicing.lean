import TypedTable.Proofs.Catalog
import TypedTable.Proofs.Table.Copying

/-!
# When rectangles can be copied

A rectangle is copied out of a table of one type exactly when the output has a place for each of its
cells: the piece that a block holds is refused when it would end behind the output, and the last
piece ends where the rectangle does. A whole column is copied block by block in the same way.
-/

set_option autoImplicit false

namespace TypedTable

open TypedTable.Dense (target)

/-- An interval with room for its size below the limit of words. -/
theorem Interval.exists_ofSize {start size : Nat} (hs : 0 < size)
    (hw : start + size ≤ wordLimit) : ∃ span, Interval.ofSize start size = .ok span := by
  rw [ofSize, if_neg (by omega), if_neg (by omega)]
  exact ⟨_, rfl⟩

theorem Interval.exists_ofBounds {lower upper : Nat} (h : lower ≤ upper) :
    ∃ span, Interval.ofBounds lower upper = .ok span := by
  rw [ofBounds, dif_pos h]
  exact ⟨_, rfl⟩

/-- The last place of a rectangle is in the output when all its places are. -/
theorem Dense.target_mono {start lead row row' col col' : Nat} (hr : row ≤ row') (hc : col ≤ col') :
    target start lead row col ≤ target start lead row' col' := by
  have := Nat.mul_le_mul_right lead hc
  simp only [target]
  omega

theorem size_foldl {α β : Type} {f : Array α → β → Array α}
    (h : ∀ out step, (f out step).size = out.size) (steps : List β) (out : Array α) :
    (steps.foldl f out).size = out.size := by
  induction steps generalizing out with
  | nil => rfl
  | cons step steps ih => exact (ih _).trans (h out step)

theorem size_overwrite {α : Type} (gap place : Nat) (values : List α) (out : Array α) :
    (overwrite gap place values out).size = out.size :=
  size_foldl (fun _ _ => Array.size_setIfInBounds) _ out

section Blocks

variable {type : ScalarType} {heap : Heap} {rows cols part : Interval} {lead start : Nat}
  {out later : Array type.Carrier}

theorem Dense.size_copyColumns (dense : Dense type) (out : Array type.Carrier) :
    (dense.copyColumns heap rows cols lead out start).size = out.size :=
  size_foldl (fun _ _ => size_overwrite ..) _ out

theorem Dense.copyRectangle_eq_ok {dense : Dense type} :
    dense.copyRectangle heap rows cols lead out start = .ok later ↔
      rows.upper < dense.rows ∧ cols.upper < dense.cols ∧ rows.size ≤ lead ∧
        start + (cols.size - 1) * lead + rows.size ≤ out.size ∧
        later = dense.copyColumns heap rows cols lead out start := by
  unfold copyRectangle
  constructor
  · intro hok
    obtain ⟨u, hcheck, hok⟩ := bind_eq_ok_iff.1 hok
    obtain ⟨hr, hc⟩ := checkCell_eq_ok.1 hcheck
    dsimp only at hok
    split at hok
    next => cases hok
    next hlead =>
      split at hok
      next => cases hok
      next hsize =>
        cases hok
        exact ⟨hr, hc, Nat.le_of_not_lt hlead, Nat.le_of_not_lt hsize, rfl⟩
  · rintro ⟨hr, hc, hlead, hsize, rfl⟩
    rw [checkRectangle, checkCell_eq_ok (u := ()) |>.2 ⟨hr, hc⟩, ok_bind]
    dsimp only
    rw [if_neg (Nat.not_lt.2 hlead), if_neg (Nat.not_lt.2 hsize)]

/-- What a segment holds of a rectangle is copied if the output has a place for its last cell. -/
theorem Dense.exists_copyRectangle_iff {dense : Dense type} {covered hit localRows localCols : Interval}
    {first offset : Nat} (hlead : rows.size ≤ lead) (hpart : cols.lower ≤ part.lower)
    (hoffset : offset ≤ part.lower) (hcols : part.upper - offset < dense.cols)
    (hcovered : Interval.ofSize first dense.rows = .ok covered)
    (hhit : covered.intersect rows = some hit)
    (hlocal : Interval.ofBounds (hit.lower - first) (hit.upper - first) = .ok localRows)
    (hlocal' : Interval.ofBounds (part.lower - offset) (part.upper - offset) = .ok localCols) :
    (∃ later, dense.copyRectangle heap localRows localCols lead out
        (target start lead (hit.lower - rows.lower) (part.lower - cols.lower)) = .ok later) ↔
      ∀ row ∈ rows, row ∈ covered →
        target start lead (row - rows.lower) (part.upper - cols.lower) < out.size := by
  obtain ⟨-, hlower, hupper⟩ := Interval.ofSize_eq_ok hcovered
  obtain ⟨hrow, hrow'⟩ := Interval.ofBounds_eq_ok hlocal
  obtain ⟨hcol, hcol'⟩ := Interval.ofBounds_eq_ok hlocal'
  have hmem := Interval.mem_of_intersect hhit
  have hfirst := (hmem hit.lower).1 ⟨Nat.le_refl _, hit.lower_le_upper⟩
  have hlast := (hmem hit.upper).1 ⟨hit.lower_le_upper, Nat.le_refl _⟩
  have hle := hit.lower_le_upper
  have hle' := part.lower_le_upper
  have hend : target start lead (hit.lower - rows.lower) (part.lower - cols.lower) +
      (localCols.size - 1) * lead + localRows.size =
        target start lead (hit.upper - rows.lower) (part.upper - cols.lower) + 1 := by
    have hsum : part.upper - cols.lower = part.lower - cols.lower + (localCols.size - 1) := by
      simp only [Interval.size]
      omega
    simp only [Interval.mem_def] at hfirst
    rw [hsum]
    simp only [target, Nat.add_mul, Interval.size]
    omega
  simp only [Interval.mem_def] at hfirst hlast
  constructor
  · rintro ⟨later, hok⟩ row hr hin
    obtain ⟨-, -, -, hsize, -⟩ := copyRectangle_eq_ok.1 hok
    have hin := (hmem row).2 ⟨hin, hr⟩
    rw [hend] at hsize
    refine Nat.lt_of_le_of_lt (target_mono ?_ (Nat.le_refl _)) hsize
    exact Nat.sub_le_sub_right hin.2 _
  · intro hall
    refine ⟨_, copyRectangle_eq_ok.2 ⟨?_, ?_, ?_, ?_, rfl⟩⟩
    · omega
    · omega
    · simp only [Interval.size] at hlead ⊢
      omega
    · rw [hend]
      exact hall hit.upper hlast.2 hlast.1

theorem Dense.size_copyRectangle {dense : Dense type}
    (hok : dense.copyRectangle heap rows cols lead out start = .ok later) :
    later.size = out.size := by
  obtain ⟨-, -, -, -, rfl⟩ := copyRectangle_eq_ok.1 hok
  exact size_copyColumns ..

theorem Segment.exists_copySlice_cons_iff {dense : Dense type} {covered : Interval}
    {offset first : Nat} {below : List Segment} {Q : Prop} (hlead : rows.size ≤ lead)
    (hpart : cols.lower ≤ part.lower) (hoffset : offset ≤ part.lower)
    (hcols : part.upper - offset < dense.cols)
    (hcovered : Interval.ofSize first dense.rows = .ok covered)
    (hbelow : ∀ middle : Array type.Carrier, middle.size = out.size →
      ((∃ later, copySlice heap type rows cols part lead start below (first + dense.rows) middle =
        .ok later) ↔ Q)) :
    (∃ later, copySlice heap type rows cols part lead start (⟨⟨type, dense⟩, offset⟩ :: below) first
        out = .ok later) ↔
      (∀ row ∈ rows, row ∈ covered →
        target start lead (row - rows.lower) (part.upper - cols.lower) < out.size) ∧ Q := by
  rw [copySlice, Block.typed_self, ok_bind, hcovered, ok_bind]
  cases hhit : covered.intersect rows with
  | none =>
    have hnone := Interval.intersect_eq_none_iff.1 hhit
    refine (hbelow out rfl).trans ⟨fun hq => ⟨fun row hr hin => ?_, hq⟩, fun h => h.2⟩
    exact absurd hr (hnone row hin)
  | some hit =>
    obtain ⟨localRows, hlocal⟩ := Interval.exists_ofBounds
      (Nat.sub_le_sub_right hit.lower_le_upper first)
    obtain ⟨localCols, hlocal'⟩ := Interval.exists_ofBounds
      (Nat.sub_le_sub_right part.lower_le_upper offset)
    dsimp only
    rw [hlocal, ok_bind, hlocal', ok_bind, exists_bind_iff fun middle hmiddle =>
      hbelow middle (Dense.size_copyRectangle hmiddle)]
    exact and_congr_left' (Dense.exists_copyRectangle_iff hlead hpart hoffset hcols hcovered hhit
      hlocal hlocal')

/-- A chain is copied if the output has a place for each of its cells that are in the rectangle. -/
theorem Segment.exists_copySlice_iff {arena : Arena} {chain : List Placement}
    {segments : List Segment} {first : Nat} (hs : chain.mapM arena.segment = .ok segments)
    (hplaced : ∀ placement ∈ chain, ∃ block, arena.blocks[placement.block]? = some block ∧
      block.type = type ∧ placement.offset ≤ part.lower ∧
      part.upper - placement.offset < block.cols ∧ 0 < block.rows)
    (hw : first + arena.height chain ≤ wordLimit) (hlead : rows.size ≤ lead)
    (hpart : cols.lower ≤ part.lower) :
    (∃ later, copySlice heap type rows cols part lead start segments first out = .ok later) ↔
      ∀ row ∈ rows, first ≤ row → row < first + arena.height chain →
        target start lead (row - rows.lower) (part.upper - cols.lower) < out.size := by
  -- blocks with none of the rows are passed over, so the condition is one on all rows at once
  induction chain generalizing segments first out with
  | nil =>
    cases hs
    refine iff_of_true ⟨out, rfl⟩ fun row _ hle hlt => ?_
    simp only [Arena.height] at hlt
    omega
  | cons placement below ih =>
    obtain ⟨block, rest, hblock, rfl, hrest⟩ := Arena.segments_cons hs
    obtain ⟨found, hfound, htype, hoffset, hcols, hpos⟩ := hplaced placement (by simp)
    obtain rfl := Option.some.inj (hblock.symm.trans hfound)
    obtain ⟨found, dense⟩ := block
    obtain rfl : found = type := htype
    have hheight : arena.height (placement :: below) = dense.rows + arena.height below := by
      simp [Arena.height, hblock, Block.rows]
    rw [hheight] at hw ⊢
    have hpos : 0 < dense.rows := hpos
    have hspan : first + dense.rows ≤ wordLimit := by omega
    obtain ⟨covered, hcovered⟩ := Interval.exists_ofSize hpos hspan
    obtain ⟨-, hlower, hupper⟩ := Interval.ofSize_eq_ok hcovered
    have hdown (middle : Array found.Carrier) (hsize : middle.size = out.size) :
        (∃ later, copySlice heap found rows cols part lead start rest (first + dense.rows) middle =
          .ok later) ↔
        ∀ row ∈ rows, first + dense.rows ≤ row →
          row < first + dense.rows + arena.height below →
          target start lead (row - rows.lower) (part.upper - cols.lower) < out.size :=
      hsize ▸ ih hrest (fun p hp => hplaced p (by simp [hp])) (by omega)
    rw [exists_copySlice_cons_iff hlead hpart hoffset hcols hcovered hdown]
    simp only [Interval.mem_def]
    constructor
    · rintro ⟨htop, hbelow⟩ row hr hle hlt
      by_cases hin : row < first + dense.rows
      · exact htop row hr (by omega)
      · exact hbelow row hr (by omega) (by omega)
    · intro hall
      exact ⟨fun row hr hin => hall row hr (by omega) (by omega),
        fun row hr hle hlt => hall row hr (by omega) (by omega)⟩

/-- `later` is `out` with a list of cells of one type put in from `first` on. -/
structure Stacks (type : ScalarType) (first : Nat) (cells : List Cell)
    (out later : Array type.Carrier) : Prop where
  size : later.size = out.size
  put : ∀ (row : Nat) (cell : Cell), cells[row]? = some cell →
    ∃ value : type.Carrier, cell = ⟨type, value⟩ ∧ later[first + row]? = some value
  kept : ∀ place, (place < first ∨ first + cells.length ≤ place) → later[place]? = out[place]?

theorem Stacks.append {first : Nat} {top below : List Cell} {middle : Array type.Carrier}
    (h : Stacks type first top out middle)
    (hb : Stacks type (first + top.length) below middle later) :
    Stacks type first (top ++ below) out later where
  size := hb.size.trans h.size
  put row cell hcell := by
    rcases Nat.lt_or_ge row top.length with hr | hr
    · rw [List.getElem?_append_left hr] at hcell
      obtain ⟨value, hvalue, hat⟩ := h.put row cell hcell
      exact ⟨value, hvalue, (hb.kept _ (by omega)).trans hat⟩
    · rw [List.getElem?_append_right hr] at hcell
      obtain ⟨value, hvalue, hat⟩ := hb.put _ cell hcell
      rw [Nat.add_assoc, Nat.add_sub_cancel' hr] at hat
      exact ⟨value, hvalue, hat⟩
  kept place hout := by
    rw [List.length_append] at hout
    rw [hb.kept place (by omega), h.kept place (by omega)]

theorem Dense.Filled.stacks_column {dense : Dense type} (h : dense.Filled heap) {col first : Nat}
    {all : Interval} (hall : Interval.ofSize 0 dense.rows = .ok all) (hc : col < dense.cols)
    (hsize : first + dense.rows ≤ out.size) :
    ∃ later, dense.copyRectangle heap all (.point col) dense.rows out first = .ok later ∧
      Stacks type first (Block.column heap ⟨type, dense⟩ col) out later := by
  obtain ⟨-, hlower, hupper⟩ := Interval.ofSize_eq_ok hall
  have hrows : all.size = dense.rows := by
    simp only [Interval.size]
    omega
  have hcols : (Interval.point col).size = 1 := by simp [Interval.point, Interval.size]
  have hok : dense.copyRectangle heap all (.point col) dense.rows out first =
      .ok (dense.copyColumns heap all (.point col) dense.rows out first) :=
    copyRectangle_eq_ok.2
      ⟨by omega, hc, Nat.le_of_eq hrows, by rw [hcols, hrows]; omega, rfl⟩
  have hput := h.puts_copyRectangle hok
  have hlength : (Block.column heap ⟨type, dense⟩ col).length = dense.rows :=
    Block.length_column heap _ col
  refine ⟨_, hok, hput.size, fun row cell hcell => ?_, fun place hout => ?_⟩
  · have hr : row < dense.rows := hlength ▸ (List.getElem?_eq_some_iff.1 hcell).1
    have hplace : target first dense.rows row 0 = first + row := by simp [target]
    have hlt : first + row < (dense.copyColumns heap all (.point col) dense.rows out first).size := by
      rw [hput.size]
      omega
    have hvalue := Array.getElem?_eq_getElem hlt
    have hcell' := hput.put row 0 _ ⟨by omega, by omega⟩ (by rw [hplace]; exact hvalue)
    rw [Block.getElem?_column heap _ _ hr, Block.cell] at hcell
    rw [hlower, Nat.zero_add] at hcell'
    simp only [Interval.point, Nat.add_zero] at hcell'
    obtain rfl := Option.some.inj hcell
    exact ⟨_, by rw [hcell']; rfl, hvalue⟩
  · refine hput.kept place fun row col' hin => ?_
    obtain rfl : col' = 0 := by omega
    simp only [target]
    omega

theorem Segment.stacks_copyColumn {arena : Arena} {chain : List Placement}
    {segments : List Segment} {first col : Nat} (hs : chain.mapM arena.segment = .ok segments)
    (hplaced : ∀ placement ∈ chain, ∃ block, arena.blocks[placement.block]? = some block ∧
      block.type = type ∧ col - placement.offset < block.cols ∧ block.Filled heap)
    (hw : arena.height chain ≤ wordLimit) (hsize : first + arena.height chain ≤ out.size) :
    ∃ later, copyColumn heap type col segments first out = .ok later ∧
      Stacks type first (arena.column heap col chain) out later := by
  induction chain generalizing segments first out with
  | nil =>
    cases hs
    exact ⟨out, rfl, rfl, by simp [Arena.column], fun _ _ => rfl⟩
  | cons placement below ih =>
    obtain ⟨block, rest, hblock, rfl, hrest⟩ := Arena.segments_cons hs
    obtain ⟨found, hfound, htype, hcol, hfilled⟩ := hplaced placement (by simp)
    obtain rfl := Option.some.inj (hblock.symm.trans hfound)
    obtain ⟨found, dense⟩ := block
    obtain rfl : found = type := htype
    have hheight : arena.height (placement :: below) = dense.rows + arena.height below := by
      simp [Arena.height, hblock, Block.rows]
    rw [hheight] at hw hsize
    have hdense : dense.Filled heap := hfilled
    have hspan : 0 + dense.rows ≤ wordLimit := by omega
    have hroom : first + dense.rows ≤ out.size := by omega
    obtain ⟨all, hall⟩ := Interval.exists_ofSize hdense.rows_pos hspan
    obtain ⟨middle, hmiddle, htop⟩ := hdense.stacks_column hall hcol hroom
    have hlength : (Block.column heap ⟨found, dense⟩ (col - placement.offset)).length =
        dense.rows := Block.length_column heap _ _
    have hrests : first + dense.rows + arena.height below ≤ middle.size := by
      rw [htop.size]
      omega
    obtain ⟨later, hok, hbelow⟩ :=
      ih hrest (fun p hp => hplaced p (by simp [hp])) (by omega) hrests
    refine ⟨later, ?_, ?_⟩
    · rw [copyColumn, Block.typed_self, ok_bind, hall, ok_bind, hmiddle, ok_bind, hok]
    · rw [Arena.column_cons hblock]
      exact htop.append (hlength ▸ hbelow)

end Blocks

namespace Table

variable {heap : Heap} {table : Table} {type : ScalarType} {rows cols : Interval}
  {lead start : Nat} {out later : Array type.Carrier} {entry : Interval × Nat} {col : Nat}

/-- `later` is `out` with the cells that are `inside` put at the places `place` gives them. -/
structure CopiedTo (heap : Heap) (table : Table) (type : ScalarType) (inside : Nat → Nat → Prop)
    (place : Nat → Nat → Nat) (out later : Array type.Carrier) : Prop where
  size : later.size = out.size
  copied : ∀ row col, inside row col → ∃ value, table.get heap type row col = .ok value ∧
    later[place row col]? = some value
  kept : ∀ index, (∀ row col, inside row col → place row col ≠ index) → later[index]? = out[index]?

namespace Consistent

theorem exists_segments (h : table.Consistent heap) (hm : entry ∈ table.chains.entries) :
    ∃ segments, table.arena.segments entry.2 = .ok segments := by
  obtain ⟨⟨type, hplaced⟩, -⟩ := h.supports entry hm
  refine exists_mapM_ok fun placement hp => ?_
  obtain ⟨block, hblock, -⟩ := hplaced placement hp
  rw [Arena.segment, Arena.block_eq_ok.2 hblock]
  exact ⟨_, rfl⟩

theorem placed_of_type (h : table.Consistent heap) (hm : entry ∈ table.chains.entries)
    (ht : table.arena.chainType entry.2 = .ok type) {placement : Placement}
    (hp : placement ∈ table.arena.chain entry.2) :
    ∃ block, table.arena.blocks[placement.block]? = some block ∧ block.type = type ∧
      placement.offset ≤ entry.1.lower ∧ entry.1.upper - placement.offset < block.cols ∧
      block.Filled heap := by
  obtain ⟨⟨shared, hplaced⟩, -⟩ := h.supports entry hm
  obtain ⟨found, hfound, htype⟩ := h.chainType_eq hm
  obtain rfl := Except.ok.inj (hfound.symm.trans ht)
  obtain ⟨block, hblock, -, hoffset, hcols⟩ := hplaced placement hp
  exact ⟨block, hblock, htype placement hp block hblock, hoffset, hcols,
    h.filled block (Array.mem_of_getElem? hblock)⟩

theorem columnType_eq (h : table.Consistent heap) (hm : entry ∈ table.chains.entries)
    (hc : col ∈ entry.1) : table.columnType col = table.arena.chainType entry.2 := by
  have hlt : col < table.cols := Nat.lt_of_le_of_lt hc.2 (h.lt_cols hm)
  rw [columnType, checkCol, require_eq_ok (u := ()) |>.2 hlt, ok_bind, head,
    RangeMap.find?_of_mem h.sorted hm hc, ok_bind]

/-- A chain is copied if the output has a place for each of its cells in the rectangle. -/
theorem exists_copyChain_iff (h : table.Consistent heap) (hp : table.pending = none)
    (hw : table.rows ≤ wordLimit) (hm : entry ∈ table.chains.entries)
    (ht : table.arena.chainType entry.2 = .ok type) (hr : rows.upper < table.rows)
    (hlead : rows.size ≤ lead) :
    (∃ later, copyChain heap table.arena type rows cols lead start out entry = .ok later) ↔
      ∀ row ∈ rows, ∀ col ∈ cols, col ∈ entry.1 →
        target start lead (row - rows.lower) (col - cols.lower) < out.size := by
  unfold copyChain
  split
  next hnone =>
    refine iff_of_true ⟨out, rfl⟩ fun row _ col hc hin => ?_
    exact absurd hc (Interval.intersect_eq_none_iff.1 hnone col hin)
  next part hpart =>
    have hmem := Interval.mem_of_intersect hpart
    have hlower := (hmem part.lower).1 ⟨Nat.le_refl _, part.lower_le_upper⟩
    have hupper := (hmem part.upper).1 ⟨part.lower_le_upper, Nat.le_refl _⟩
    obtain ⟨segments, hsegments⟩ := h.exists_segments hm
    have hheight := h.height_eq hp hm
    rw [hsegments, ok_bind, Segment.exists_copySlice_iff hsegments (fun placement hplacement => ?_)
      (by omega) hlead hlower.2.1]
    · rw [Nat.zero_add, hheight]
      constructor
      · intro hall row hrow col hc hin
        have hlast := (hmem col).2 ⟨hin, hc⟩
        refine Nat.lt_of_le_of_lt (Dense.target_mono (Nat.le_refl _) ?_)
          (hall row hrow (Nat.zero_le _) (Nat.lt_of_le_of_lt hrow.2 hr))
        exact Nat.sub_le_sub_right hlast.2 _
      · intro hall row hrow _ _
        exact hall row hrow part.upper hupper.2 hupper.1
    · obtain ⟨block, hblock, htype, hoffset, hcols, hfilled⟩ := h.placed_of_type hm ht hplacement
      have := hlower.1.1
      have := hupper.1.2
      exact ⟨block, hblock, htype, by omega, by omega, hfilled.rows_pos⟩

theorem checkExtracted_iff (h : table.Consistent heap) (hc : cols.upper < table.cols) :
    (table.chains.range cols).forM (checkExtracted table.arena type) = .ok () ↔
      ∀ col ∈ cols, table.columnType col = .ok type := by
  have hle := cols.lower_le_upper
  rw [forM_eq_ok_iff]
  constructor
  · intro hall col hin
    obtain ⟨entry, hm, hcol⟩ := h.exists_entry (Nat.lt_of_le_of_lt hin.2 hc)
    have hmeets : entry.1.meets cols = true := Interval.meets_iff.2 (by
      rw [Interval.mem_def] at hin hcol
      omega)
    obtain ⟨found, hfound, hcheck⟩ := bind_eq_ok_iff.1
      (hall entry (h.mem_range_iff.2 ⟨hm, hmeets⟩))
    obtain rfl := require_eq_ok.1 hcheck
    rw [h.columnType_eq hm hcol, hfound]
  · intro hall entry hin
    obtain ⟨hm, hmeets⟩ := h.mem_range_iff.1 hin
    rw [Interval.meets_iff] at hmeets
    have := entry.1.lower_le_upper
    have hfirst : max entry.1.lower cols.lower ∈ entry.1 := by
      rw [Interval.mem_def]
      omega
    have htype := hall (max entry.1.lower cols.lower) (by rw [Interval.mem_def]; omega)
    rw [h.columnType_eq hm hfirst] at htype
    rw [checkExtracted, htype, ok_bind, require_eq_ok]

theorem exists_copyChains_iff (h : table.Consistent heap) (hp : table.pending = none)
    (hw : table.rows ≤ wordLimit) (hr : rows.upper < table.rows) (hc : cols.upper < table.cols)
    (ht : (table.chains.range cols).forM (checkExtracted table.arena type) = .ok ())
    (hlead : rows.size ≤ lead) :
    (∃ later, (table.chains.range cols).foldlM
        (copyChain heap table.arena type rows cols lead start) out = .ok later) ↔
      start + (cols.size - 1) * lead + rows.size ≤ out.size := by
  have hle := rows.lower_le_upper
  have hle' := cols.lower_le_upper
  have hend : target start lead (rows.upper - rows.lower) (cols.upper - cols.lower) + 1 =
      start + (cols.size - 1) * lead + rows.size := by
    simp only [target, Interval.size, Nat.add_sub_cancel]
    omega
  rw [exists_foldlM_iff (P := fun middle : Array type.Carrier => middle.size = out.size)
    (Q := fun entry => ∀ row ∈ rows, ∀ col ∈ cols, col ∈ entry.1 →
      target start lead (row - rows.lower) (col - cols.lower) < out.size) ?_ ?_ rfl]
  · rw [← hend, Nat.succ_le_iff]
    constructor
    · intro hall
      obtain ⟨entry, hm, hin⟩ := h.exists_entry hc
      refine hall entry (h.mem_range_iff.2 ⟨hm, Interval.meets_iff.2 ?_⟩) rows.upper
        ⟨hle, Nat.le_refl _⟩ cols.upper ⟨hle', Nat.le_refl _⟩ hin
      rw [Interval.mem_def] at hin
      omega
    · intro hlast entry _ row hrow col hcol _
      exact Nat.lt_of_le_of_lt (Dense.target_mono (Nat.sub_le_sub_right hrow.2 _)
        (Nat.sub_le_sub_right hcol.2 _)) hlast
  · intro entry hin middle hsize
    obtain ⟨found, hfound, hcheck⟩ := bind_eq_ok_iff.1 (forM_eq_ok_iff.1 ht entry hin)
    obtain rfl := require_eq_ok.1 hcheck
    rw [h.exists_copyChain_iff hp hw (h.mem_range_iff.1 hin).1 hfound hr hlead, hsize]
  · intro entry hin middle later hsize hok
    exact (h.puts_copyChain hp (h.mem_range_iff.1 hin).1 hr hlead hok).size.trans hsize

/-- A rectangle is copied exactly when it fits the table, has one type and finds room. -/
theorem exists_extractSlice_iff (h : table.Consistent heap) (hp : table.pending = none)
    (hw : table.rows ≤ wordLimit) :
    (∃ later, table.extractSlice heap type rows cols lead start out = .ok later) ↔
      rows.upper < table.rows ∧ cols.upper < table.cols ∧
        (∀ col ∈ cols, table.columnType col = .ok type) ∧ rows.size ≤ lead ∧
        start + (cols.size - 1) * lead + rows.size ≤ out.size := by
  unfold extractSlice
  rw [checkComplete_eq_ok (u := ()) |>.2 hp, ok_bind]
  constructor
  · rintro ⟨later, hok⟩
    obtain ⟨v, hr, hok⟩ := bind_eq_ok_iff.1 hok
    obtain ⟨w, hc, hok⟩ := bind_eq_ok_iff.1 hok
    obtain ⟨x, hlead, hok⟩ := bind_eq_ok_iff.1 hok
    obtain ⟨y, ht, hok⟩ := bind_eq_ok_iff.1 hok
    have hr := require_eq_ok.1 hr
    have hc := require_eq_ok.1 hc
    have hlead := require_eq_ok.1 hlead
    exact ⟨hr, hc, (h.checkExtracted_iff hc).1 ht, hlead,
      (h.exists_copyChains_iff hp hw hr hc ht hlead).1 ⟨later, hok⟩⟩
  · rintro ⟨hr, hc, htypes, hlead, hsize⟩
    have ht := (h.checkExtracted_iff hc).2 htypes
    obtain ⟨later, hok⟩ := (h.exists_copyChains_iff hp hw hr hc ht hlead).2 hsize
    refine ⟨later, ?_⟩
    rw [checkRow, require_eq_ok (u := ()) |>.2 hr, ok_bind, checkCol,
      require_eq_ok (u := ()) |>.2 hc, ok_bind, require_eq_ok (u := ()) |>.2 hlead, ok_bind, ht,
      ok_bind, hok]

theorem copiedTo_extractSlice (h : table.Consistent heap) (hp : table.pending = none)
    (hsize : start + (cols.size - 1) * lead + rows.size ≤ out.size)
    (hok : table.extractSlice heap type rows cols lead start out = .ok later) :
    table.CopiedTo heap type (fun row col => row ∈ rows ∧ col ∈ cols)
      (fun row col => target start lead (row - rows.lower) (col - cols.lower)) out later := by
  have hput := h.puts_extractSlice hok
  have hinside {row col : Nat} (hin : row ∈ rows ∧ col ∈ cols) :
      row - rows.lower < rows.size ∧ col - cols.lower < cols.size := by
    obtain ⟨hrow, hcol⟩ := hin
    rw [Interval.mem_def] at hrow hcol
    simp only [Interval.size]
    omega
  refine ⟨hput.size, fun row col hin => ?_, fun index hout => ?_⟩
  · obtain ⟨hr, hc⟩ := hinside hin
    have hlt : target start lead (row - rows.lower) (col - cols.lower) < later.size := by
      have := Nat.mul_le_mul_right lead (Nat.le_sub_one_of_lt hc)
      rw [hput.size, target]
      omega
    have hvalue := Array.getElem?_eq_getElem hlt
    have hholds := hput.put _ _ _ ⟨hr, hc⟩ hvalue
    rw [Nat.add_sub_cancel' hin.1.1, Nat.add_sub_cancel' hin.2.1] at hholds
    exact ⟨_, h.get_of_holds hp hholds, hvalue⟩
  · refine hput.kept index fun row col hin => ?_
    have := hout (rows.lower + row) (cols.lower + col)
      ⟨Interval.lower_add_mem.2 hin.1, Interval.lower_add_mem.2 hin.2⟩
    simpa using this

theorem copiedTo_copyColumn (h : table.Consistent heap) (hp : table.pending = none)
    (hw : table.rows ≤ wordLimit) (hm : entry ∈ table.chains.entries) (hc : col ∈ entry.1)
    (ht : table.arena.chainType entry.2 = .ok type) (hsize : table.rows ≤ out.size)
    {segments : List Segment} (hs : table.arena.segments entry.2 = .ok segments) :
    ∃ later, Segment.copyColumn heap type col segments 0 out = .ok later ∧
      table.CopiedTo heap type (fun row other => row < table.rows ∧ other = col)
        (fun row _ => row) out later := by
  have hheight := h.height_eq hp hm
  have hplaced : ∀ placement ∈ table.arena.chain entry.2,
      ∃ block, table.arena.blocks[placement.block]? = some block ∧ block.type = type ∧
        col - placement.offset < block.cols ∧ block.Filled heap := by
    intro placement hplacement
    obtain ⟨block, hblock, htype, hoffset, hcols, hfilled⟩ := h.placed_of_type hm ht hplacement
    have := hc.2
    exact ⟨block, hblock, htype, by omega, hfilled⟩
  have hroom : 0 + table.arena.height (table.arena.chain entry.2) ≤ out.size := by omega
  obtain ⟨later, hok, hstack⟩ := Segment.stacks_copyColumn hs hplaced (by omega) hroom
  rw [← h.column_of_mem hm hc] at hstack
  have hlength := h.length_column hp (Nat.lt_of_le_of_lt hc.2 (h.lt_cols hm))
  refine ⟨later, hok, hstack.size, ?_, fun index hout => ?_⟩
  · rintro row other ⟨hr, rfl⟩
    have hcell := List.getElem?_eq_getElem (hlength ▸ hr)
    obtain ⟨value, hvalue, hat⟩ := hstack.put row _ hcell
    refine ⟨value, h.get_of_holds hp (hcell.trans (congrArg some hvalue)), ?_⟩
    rwa [Nat.zero_add] at hat
  · refine hstack.kept index (.inr ?_)
    rw [Nat.zero_add, hlength]
    exact Nat.le_of_not_lt fun hr => hout index col ⟨hr, rfl⟩ rfl

theorem chainType_of_copyColumn (h : table.Consistent heap) (hm : entry ∈ table.chains.entries)
    {segments : List Segment} (hs : table.arena.segments entry.2 = .ok segments)
    (hok : Segment.copyColumn heap type col segments 0 out = .ok later) :
    table.arena.chainType entry.2 = .ok type := by
  obtain ⟨found, hfound, htypes⟩ := h.chainType_eq hm
  obtain ⟨first, hfirst, -⟩ := h.placement?_head hm
  unfold Arena.segments at hs
  cases hchain : table.arena.chain entry.2 with
  | nil => simp [hchain] at hfirst
  | cons placement below =>
    rw [hchain] at hs
    obtain ⟨block, rest, hblock, rfl, -⟩ := Arena.segments_cons hs
    obtain ⟨dense, hdense, -⟩ := bind_eq_ok_iff.1 hok
    obtain rfl := Block.typed_eq_ok hdense
    rw [hfound, ← htypes placement (by simp [hchain]) _ hblock]

/-- A column is copied exactly when all its rows are asked for, at its type, and find room. -/
theorem exists_extractColumn_iff (h : table.Consistent heap) (hp : table.pending = none)
    (hw : table.rows ≤ wordLimit) {expected : Nat} :
    (∃ later, table.extractColumn heap type col expected out = .ok later) ↔
      col < table.cols ∧ table.columnType col = .ok type ∧ expected = table.rows ∧
        table.rows ≤ out.size := by
  unfold extractColumn
  rw [checkComplete_eq_ok (u := ()) |>.2 hp, ok_bind]
  constructor
  · rintro ⟨later, hok⟩
    obtain ⟨u, hc, hok⟩ := bind_eq_ok_iff.1 hok
    obtain ⟨v, hrows, hok⟩ := bind_eq_ok_iff.1 hok
    obtain ⟨w, hsize, hok⟩ := bind_eq_ok_iff.1 hok
    have hc := require_eq_ok.1 hc
    obtain ⟨entry, hm, hcol⟩ := h.exists_entry hc
    rw [head, RangeMap.find?_of_mem h.sorted hm hcol, ok_bind] at hok
    obtain ⟨segments, hs, hok⟩ := bind_eq_ok_iff.1 hok
    exact ⟨hc, h.columnType_eq hm hcol ▸ h.chainType_of_copyColumn hm hs hok,
      require_eq_ok.1 hrows, require_eq_ok.1 hsize⟩
  · rintro ⟨hc, ht, rfl, hsize⟩
    obtain ⟨entry, hm, hcol⟩ := h.exists_entry hc
    rw [h.columnType_eq hm hcol] at ht
    obtain ⟨segments, hs⟩ := h.exists_segments hm
    obtain ⟨later, hok, -⟩ := h.copiedTo_copyColumn hp hw hm hcol ht hsize hs
    refine ⟨later, ?_⟩
    rw [checkCol, require_eq_ok (u := ()) |>.2 hc, ok_bind, require_eq_ok (u := ()) |>.2 rfl,
      ok_bind, require_eq_ok (u := ()) |>.2 hsize, ok_bind, head,
      RangeMap.find?_of_mem h.sorted hm hcol, ok_bind, hs, ok_bind, hok]

theorem copiedTo_extractColumn (h : table.Consistent heap) (hp : table.pending = none)
    (hw : table.rows ≤ wordLimit) {expected : Nat}
    (hok : table.extractColumn heap type col expected out = .ok later) :
    table.CopiedTo heap type (fun row other => row < table.rows ∧ other = col) (fun row _ => row)
      out later := by
  unfold extractColumn at hok
  rw [checkComplete_eq_ok (u := ()) |>.2 hp, ok_bind] at hok
  obtain ⟨u, hc, hok⟩ := bind_eq_ok_iff.1 hok
  obtain ⟨v, -, hok⟩ := bind_eq_ok_iff.1 hok
  obtain ⟨w, hsize, hok⟩ := bind_eq_ok_iff.1 hok
  obtain ⟨entry, hm, hcol⟩ := h.exists_entry (require_eq_ok.1 hc)
  rw [head, RangeMap.find?_of_mem h.sorted hm hcol, ok_bind] at hok
  obtain ⟨segments, hs, hok⟩ := bind_eq_ok_iff.1 hok
  have ht := h.chainType_of_copyColumn hm hs hok
  obtain ⟨found, hfound, hcopied⟩ := h.copiedTo_copyColumn hp hw hm hcol ht
    (require_eq_ok.1 hsize) hs
  obtain rfl := Except.ok.inj (hok.symm.trans hfound)
  exact hcopied

end Consistent

end Table

namespace Catalog

variable {catalog : Catalog}

/-- The rows of a table are counted in machine words. A rectangle of a complete table is copied
exactly when its rows and columns are in the table, the columns have the type asked for, `lead` is no
less than its height and the output reaches to its last cell; a column, when all its rows are asked
for at its type and find room. Each cell is then at its place, and the output has kept the rest. -/
theorem Reachable.extracts_exactly (h : catalog.Reachable) (number : Nat)
    (hp : (catalog.table number).pending = none)
    (hw : (catalog.table number).rows ≤ wordLimit) {type : ScalarType} (out : Array type.Carrier) :
    (∀ (rows cols : Interval) (lead start : Nat),
      ((∃ later, (catalog.table number).extractSlice catalog.heap type rows cols lead start out =
          .ok later) ↔
        rows.upper < (catalog.table number).rows ∧ cols.upper < (catalog.table number).cols ∧
          (∀ col ∈ cols, (catalog.table number).columnType col = .ok type) ∧
          rows.size ≤ lead ∧ start + (cols.size - 1) * lead + rows.size ≤ out.size) ∧
      ∀ later,
        (catalog.table number).extractSlice catalog.heap type rows cols lead start out =
          .ok later →
        (catalog.table number).CopiedTo catalog.heap type (fun row col => row ∈ rows ∧ col ∈ cols)
          (fun row col => start + (col - cols.lower) * lead + (row - rows.lower)) out later) ∧
    ∀ col expected : Nat,
      ((∃ later, (catalog.table number).extractColumn catalog.heap type col expected out =
          .ok later) ↔
        col < (catalog.table number).cols ∧
          (catalog.table number).columnType col = .ok type ∧
          expected = (catalog.table number).rows ∧ (catalog.table number).rows ≤ out.size) ∧
      ∀ later,
        (catalog.table number).extractColumn catalog.heap type col expected out = .ok later →
        (catalog.table number).CopiedTo catalog.heap type
          (fun row other => row < (catalog.table number).rows ∧ other = col) (fun row _ => row) out
          later := by
  have hc := h.consistent number
  refine ⟨fun rows cols lead start => ?_, fun col expected => ?_⟩
  · refine ⟨hc.exists_extractSlice_iff hp hw, fun later hok => ?_⟩
    obtain ⟨-, -, -, -, hsize⟩ := (hc.exists_extractSlice_iff hp hw).1 ⟨later, hok⟩
    exact hc.copiedTo_extractSlice hp hsize hok
  · exact ⟨hc.exists_extractColumn_iff hp hw, fun later hok => hc.copiedTo_extractColumn hp hw hok⟩

/-- Two integer columns beside one of texts; below their two rows comes one more, and the blocks of
the integers are stored in different orders. -/
def patchwork : Catalog :=
  Catalog.empty.run
    [.appendColumns 0 .int 2 2 .columnMajor (.copied #[11, 21, 12, 22]),
      .appendColumns 0 .str 2 1 .columnMajor (.copied #["a", "b"]),
      .appendRows 0 .int 1 2 .rowMajor (.copied #[31, 32]),
      .appendRows 0 .str 1 1 .columnMajor (.copied #["c"])]

/-- The last two rows of the integers, with a gap between the columns; one place less is refused, and
so is a rectangle with the texts. -/
theorem extracts_exactly_patchwork :
    (∃ later, (patchwork.table 0).extractSlice patchwork.heap .int ⟨1, 2, by decide⟩
        ⟨0, 1, by decide⟩ 3 1 (Array.replicate 7 0) = .ok later ∧
      later[5]? = some (32 : Int64) ∧ later[3]? = some (0 : Int64)) ∧
    (¬ ∃ later, (patchwork.table 0).extractSlice patchwork.heap .int ⟨1, 2, by decide⟩
        ⟨0, 1, by decide⟩ 3 2 (Array.replicate 6 0) = .ok later) ∧
    ¬ ∃ later, (patchwork.table 0).extractSlice patchwork.heap .int ⟨1, 2, by decide⟩
        ⟨0, 2, by decide⟩ 3 1 (Array.replicate 99 0) = .ok later := by
  have hr : patchwork.Reachable := Reachable.empty.run _
  have hp : (patchwork.table 0).pending = none := by decide +kernel
  have hw : (patchwork.table 0).rows ≤ wordLimit := by decide +kernel
  have hexact (out : Array ScalarType.int.Carrier) := Reachable.extracts_exactly hr 0 hp hw out
  refine ⟨?_, ?_, ?_⟩
  · obtain ⟨hiff, hcopied⟩ := (hexact (Array.replicate 7 0)).1 ⟨1, 2, by decide⟩ ⟨0, 1, by decide⟩ 3 1
    obtain ⟨later, hok⟩ := hiff.2 (by
      refine ⟨by decide +kernel, by decide +kernel, ?_, by decide, by decide⟩
      intro col hcol
      obtain rfl | rfl : col = 0 ∨ col = 1 := by
        rw [Interval.mem_def] at hcol
        dsimp only at hcol
        omega
      · decide +kernel
      · decide +kernel)
    have hlater := hcopied later hok
    refine ⟨later, hok, ?_, ?_⟩
    · obtain ⟨value, hget, hat⟩ := hlater.copied 2 1
        ⟨Interval.mem_def.2 (by decide), Interval.mem_def.2 (by decide)⟩
      have hfound : (patchwork.table 0).get patchwork.heap .int 2 1 = .ok (32 : Int64) := by
        decide +kernel
      rw [Except.ok.inj (hget.symm.trans hfound)] at hat
      exact hat
    · rw [hlater.kept 3 ?_]
      · rfl
      · intro row col hin
        simp only [Interval.mem_def] at hin
        dsimp only at hin ⊢
        omega
  · intro hok
    obtain ⟨-, -, -, -, hsize⟩ := ((hexact (Array.replicate 6 0)).1 _ _ _ _).1.1 hok
    exact absurd hsize (by decide)
  · intro hok
    obtain ⟨-, -, htypes, -⟩ := ((hexact (Array.replicate 99 0)).1 _ _ _ _).1.1 hok
    exact absurd (htypes 2 (Interval.mem_def.2 (by decide))) (by decide +kernel)

end Catalog

end TypedTable
