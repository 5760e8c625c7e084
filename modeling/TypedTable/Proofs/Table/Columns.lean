import TypedTable.Proofs.Table.Origins

/-!
# What the columns of a table hold

The cells of a column are those of the blocks of its chain, from top to bottom. They are what is
read at the origins of the column, so new columns and a merge leave the cells of the others alone,
and a block of rows adds cells below the columns it covers.
-/

set_option autoImplicit false

namespace TypedTable

namespace Block

def cell (heap : Heap) (block : Block) (row col : Nat) : Cell :=
  ⟨block.type, (block.dense.cell? heap row col).getD block.type.blank⟩

def column (heap : Heap) (block : Block) (col : Nat) : List Cell :=
  (List.range block.rows).map fun row => block.cell heap row col

theorem read_origin (heap : Heap) (block : Block) (row col : Nat) :
    (block.origin row col).read heap = block.cell heap row col := by
  obtain ⟨type, rows, cols, order, storage⟩ := block
  cases storage <;> rfl

theorem column_eq_map (heap : Heap) (block : Block) (col : Nat) :
    block.column heap col = (block.origins col).map (Origin.read heap) := by
  simp [column, origins, read_origin]

@[simp] theorem length_column (heap : Heap) (block : Block) (col : Nat) :
    (block.column heap col).length = block.rows := by
  simp [column]

theorem getElem?_column (heap : Heap) (block : Block) {row : Nat} (col : Nat)
    (hr : row < block.rows) : (block.column heap col)[row]? = some (block.cell heap row col) := by
  simp [column, hr]

end Block

namespace Arena

def placedColumn (heap : Heap) (arena : Arena) (col : Nat) (placement : Placement) : List Cell :=
  (arena.blocks[placement.block]?).elim [] (·.column heap (col - placement.offset))

def column (heap : Heap) (arena : Arena) (col : Nat) (chain : List Placement) : List Cell :=
  chain.flatMap (arena.placedColumn heap col)

variable {heap : Heap} {arena : Arena} {col : Nat} {chain : List Placement}

theorem column_eq_map (heap : Heap) (arena : Arena) (col : Nat) (chain : List Placement) :
    arena.column heap col chain = (arena.origins col chain).map (Origin.read heap) := by
  rw [column, origins, List.map_flatMap]
  apply List.flatMap_congr
  intro placement _
  rw [placedColumn, placedOrigins]
  cases arena.blocks[placement.block]? with
  | none => rfl
  | some block => exact block.column_eq_map heap (col - placement.offset)

theorem column_cons {block : Block} {placement : Placement}
    (hb : arena.blocks[placement.block]? = some block) :
    arena.column heap col (placement :: chain) =
      block.column heap (col - placement.offset) ++ arena.column heap col chain := by
  rw [column, List.flatMap_cons, placedColumn, hb]
  rfl

end Arena

namespace Table

/-- The cells of a column from top to bottom, those of pending rows included. -/
def column (heap : Heap) (table : Table) (col : Nat) : List Cell :=
  match table.chains.find? col with
  | some (_, head) => table.arena.column heap col (table.arena.chain head)
  | none => []

theorem column_eq_map (heap : Heap) (table : Table) (col : Nat) :
    table.column heap col = (table.origins col).map (Origin.read heap) := by
  unfold column origins
  cases table.chains.find? col with
  | none => rfl
  | some entry => exact table.arena.column_eq_map heap col _

namespace Consistent

variable {heap : Heap} {table other : Table} {entry : Interval × Nat} {col : Nat}

theorem column_of_mem (h : table.Consistent heap) (hm : entry ∈ table.chains.entries)
    (hc : col ∈ entry.1) :
    table.column heap col = table.arena.column heap col (table.arena.chain entry.2) := by
  rw [column, RangeMap.find?_of_mem h.sorted hm hc]

theorem rows_pos (h : table.Consistent heap) (hp : table.pending = none)
    (hc : 0 < table.cols) : 0 < table.rows := by
  obtain ⟨entry, hm, -⟩ := h.exists_entry hc
  obtain ⟨⟨type, hplaced⟩, -⟩ := h.supports entry hm
  obtain ⟨first, hfirst, -⟩ := h.placement?_head hm
  rw [← h.height_eq hp hm]
  cases hchain : table.arena.chain entry.2 with
  | nil => simp [hchain] at hfirst
  | cons placement below =>
    obtain ⟨block, hblock, -⟩ := hplaced placement (by simp [hchain])
    have hfilled := h.filled block (Array.mem_of_getElem? hblock)
    have hpos : 0 < block.rows := hfilled.rows_pos
    simp only [Arena.height, hblock, Option.elim_some]
    omega

theorem column_addColumns (h : table.Consistent heap) {block : Block} {span : Interval}
    (hl : span.lower = table.cols) (hc : col < table.cols + block.cols)
    (hn : (table.addColumns block
      ⟨table.chains.entries ++ [(span, table.arena.nodes.size)]⟩).Consistent heap) :
    (table.addColumns block ⟨table.chains.entries ++ [(span, table.arena.nodes.size)]⟩).column
        heap col =
      if col < table.cols then table.column heap col
      else block.column heap (col - table.cols) := by
  rw [column_eq_map, h.origins_addColumns hl hc hn]
  split
  · rw [column_eq_map]
  · rw [Block.column_eq_map]

theorem column_linkRows (h : table.Consistent heap) {block : Block} {span : Interval}
    {tails : List Nat} (hc : col < table.cols)
    (hin : ∀ entry ∈ table.chains.entries, entry.1.meets span = true →
      span.lower ≤ entry.1.lower ∧ entry.1.upper ≤ span.upper)
    (ht : ((table.chains.range span).map (·.2)).map table.arena.tail? = tails.map some) :
    (table.linkRows span block tails).column heap col =
      table.column heap col ++
        if span.contains col then block.column heap (col - span.lower) else [] := by
  rw [column_eq_map, column_eq_map, h.origins_linkRows hc hin ht, List.map_append]
  congr 1
  split
  · rw [Block.column_eq_map]
  · rfl

theorem column_merged (h : table.Consistent heap) (ho : other.Consistent heap)
    (hn : (merged table other).Consistent heap) (hc : col < table.cols + other.cols) :
    (merged table other).column heap col =
      if col < table.cols then table.column heap col
      else other.column heap (col - table.cols) := by
  rw [column_eq_map, h.origins_merged ho hn hc]
  split
  · rw [column_eq_map]
  · rw [column_eq_map]

/-- A column of a complete table has a cell in every row. -/
theorem length_column (h : table.Consistent heap) (hp : table.pending = none)
    (hc : col < table.cols) : (table.column heap col).length = table.rows := by
  rw [column_eq_map, List.length_map, h.length_origins hp hc]

end Consistent

end Table

end TypedTable
