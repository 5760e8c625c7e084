import TypedTable.Proofs.Table.Columns
import TypedTable.Table.Cells

/-!
# Reading and writing cells of consistent tables

Every cell of a complete consistent table is found in one block of its chain. A read gives the cell
of the column to those who ask for its type; a write puts a new cell in its place and keeps the table
consistent.
-/

set_option autoImplicit false

namespace TypedTable

theorem Arena.block_eq_ok {arena : Arena} {index : Nat} {block : Block} :
    arena.block index = .ok block ↔ arena.blocks[index]? = some block := by
  unfold Arena.block
  split <;> simp [*]

theorem Arena.locate_eq {arena : Arena} (outside : TableFault) (col : Nat)
    {chain : List Placement} {row : Nat}
    (hplaced : ∀ placement ∈ chain, ∃ block, arena.blocks[placement.block]? = some block)
    (hr : row < arena.height chain) :
    ∃ above placement below block inner, chain = above ++ placement :: below ∧
      arena.blocks[placement.block]? = some block ∧ inner < block.rows ∧
      arena.height above + inner = row ∧
      arena.locate outside col chain row =
        .ok ⟨placement.block, inner, col - placement.offset⟩ := by
  induction chain generalizing row with
  | nil => simp [height] at hr
  | cons placement below ih =>
    obtain ⟨block, hblock⟩ := hplaced placement (by simp)
    have hsplit : arena.height (placement :: below) = block.rows + arena.height below := by
      simp [height, hblock]
    rw [locate, block_eq_ok.2 hblock, ok_bind]
    by_cases hlt : row < block.rows
    · exact ⟨[], placement, below, block, row, rfl, hblock, hlt, Nat.zero_add _, if_pos hlt⟩
    · rw [if_neg hlt]
      have hrest : row - block.rows < arena.height below := by omega
      obtain ⟨above, found, later, inner, inside, rfl, hfound, hinner, hrow, hlocate⟩ :=
        ih (fun p hp => hplaced p (by simp [hp])) hrest
      refine ⟨placement :: above, found, later, inner, inside, rfl, hfound, hinner, ?_, hlocate⟩
      have habove : arena.height (placement :: above) = block.rows + arena.height above := by
        simp [height, hblock]
      omega

namespace Table

structure Located (table : Table) (row col : Nat) (place : Location) (entry : Interval × Nat)
    (above : List Placement) (offset : Nat) (below : List Placement) (block : Block) : Prop where
  mem : entry ∈ table.chains.entries
  col_mem : col ∈ entry.1
  chain : table.arena.chain entry.2 = above ++ ⟨place.block, offset⟩ :: below
  block_eq : table.arena.blocks[place.block]? = some block
  row_lt : place.row < block.rows
  row_eq : table.arena.height above + place.row = row
  col_eq : place.col + offset = col
  col_lt : place.col < block.cols

variable {heap : Heap} {table : Table} {row col : Nat}

theorem checkCell_eq_ok {u : Unit} :
    table.checkCell row col = .ok u ↔
      table.pending = none ∧ row < table.rows ∧ col < table.cols := by
  unfold checkCell checkRow checkCol
  constructor
  · intro h
    obtain ⟨v, hcomplete, h⟩ := bind_eq_ok_iff.1 h
    obtain ⟨w, hrow, h⟩ := bind_eq_ok_iff.1 h
    exact ⟨checkComplete_eq_ok.1 hcomplete, require_eq_ok.1 hrow, require_eq_ok.1 h⟩
  · rintro ⟨hp, hr, hc⟩
    rw [checkComplete_eq_ok (u := ()) |>.2 hp, ok_bind, require, if_pos hr, ok_bind, require,
      if_pos hc]

theorem setBlock_self {number : Nat} {block : Block}
    (hb : table.arena.block number = .ok block) : table.setBlock number block = table := by
  obtain ⟨hlt, hblock⟩ := Array.getElem?_eq_some_iff.1 (Arena.block_eq_ok.1 hb)
  rw [setBlock, Arena.setBlock, ← hblock]
  simp [hlt, Array.setIfInBounds]

/-- A block that refuses a write is put back as it was. -/
theorem leaves_set {type : ScalarType} {value : type.Carrier} :
    Leaves (heap, table) (table.set heap type row col value) := by
  refine .check fun place _ => .check fun block hblock => ?_
  have hwrite : Leaves _ (within _ (block.set heap type place.row place.col value)) :=
    Block.leaves_set.within fun kept => (kept.1, table.setBlock place.block kept.2)
  simp only [setBlock_self hblock] at hwrite
  exact hwrite.bind fun _ _ => .ok _

theorem get_pending {pending : PendingRows} (hp : table.pending = some pending)
    (type : ScalarType) : table.get heap type row col = .error (.missingBlock pending.nextCol) := by
  rw [get, locate, checkCell, checkComplete, hp]
  rfl

namespace Consistent

theorem exists_located (h : table.Consistent heap) (hp : table.pending = none)
    (hr : row < table.rows) (hc : col < table.cols) :
    ∃ place entry above offset below block, table.locate row col = .ok place ∧
      table.Located row col place entry above offset below block := by
  obtain ⟨entry, hm, hcol⟩ := h.exists_entry hc
  obtain ⟨⟨type, hplaced⟩, -⟩ := h.supports entry hm
  have hfound : ∀ placement ∈ table.arena.chain entry.2,
      ∃ block, table.arena.blocks[placement.block]? = some block := by
    intro placement hplacement
    obtain ⟨block, hblock, -⟩ := hplaced placement hplacement
    exact ⟨block, hblock⟩
  obtain ⟨above, placement, below, block, inner, hchain, hblock, hinner, hrow, hlocate⟩ :=
    Arena.locate_eq (.internal (.uncoveredRow row col)) col hfound (h.height_eq hp hm ▸ hr)
  obtain ⟨block', hblock', -, hoffset, hcols⟩ := hplaced placement (by simp [hchain])
  obtain rfl := Option.some.inj (hblock.symm.trans hblock')
  rw [Interval.mem_def] at hcol
  refine ⟨⟨placement.block, inner, col - placement.offset⟩, entry, above, placement.offset, below,
    block, ?_, ⟨hm, hcol, hchain, hblock, hinner, hrow, ?_, ?_⟩⟩
  · rw [locate, checkCell_eq_ok (u := ()) |>.2 ⟨hp, hr, hc⟩, ok_bind, head,
      RangeMap.find?_of_mem h.sorted hm hcol]
    exact hlocate
  · dsimp only
    omega
  · dsimp only
    omega

theorem located_of_ok (h : table.Consistent heap) {place : Location}
    (hok : table.locate row col = .ok place) :
    table.pending = none ∧ row < table.rows ∧ col < table.cols ∧
      ∃ entry above offset below block,
        table.Located row col place entry above offset below block := by
  obtain ⟨u, hcell, -⟩ := bind_eq_ok_iff.1 hok
  obtain ⟨hp, hr, hc⟩ := checkCell_eq_ok.1 hcell
  obtain ⟨place', entry, above, offset, below, block, hlocate, hlocated⟩ :=
    h.exists_located hp hr hc
  obtain rfl := Except.ok.inj (hok.symm.trans hlocate)
  exact ⟨hp, hr, hc, entry, above, offset, below, block, hlocated⟩

/-- The origin of a cell is that of the block it is found in. -/
theorem getElem?_origins (h : table.Consistent heap) {place : Location} {entry : Interval × Nat}
    {above below : List Placement} {offset : Nat} {block : Block}
    (hl : table.Located row col place entry above offset below block) :
    (table.origins col)[row]? = some (block.origin place.row place.col) := by
  rw [h.origins_of_mem hl.mem hl.col_mem, hl.chain, Arena.origins_append,
    List.getElem?_append_right (by rw [Arena.length_origins, ← hl.row_eq]; omega),
    Arena.length_origins, ← hl.row_eq, Nat.add_sub_cancel_left, Arena.origins_cons hl.block_eq,
    List.getElem?_append_left (by rw [Block.length_origins]; exact hl.row_lt), ← hl.col_eq,
    Nat.add_sub_cancel]
  exact block.getElem?_origins place.col hl.row_lt

theorem getElem?_column (h : table.Consistent heap) {place : Location} {entry : Interval × Nat}
    {above below : List Placement} {offset : Nat} {block : Block}
    (hl : table.Located row col place entry above offset below block) :
    (table.column heap col)[row]? = some (block.cell heap place.row place.col) := by
  rw [column_eq_map, List.getElem?_map, h.getElem?_origins hl, Option.map_some,
    Block.read_origin]

theorem filled_of_located (h : table.Consistent heap) {place : Location}
    {entry : Interval × Nat} {above below : List Placement} {offset : Nat} {block : Block}
    (hl : table.Located row col place entry above offset below block) : block.Filled heap :=
  h.filled block (Array.mem_of_getElem? hl.block_eq)

/-- A cell is read at the type it has, and refused at any other. -/
theorem get_eq (h : table.Consistent heap) (hp : table.pending = none) (hr : row < table.rows)
    (hc : col < table.cols) :
    ∃ cell : Cell, (table.column heap col)[row]? = some cell ∧
      table.get heap cell.type row col = .ok cell.value ∧
      ∀ type, type ≠ cell.type →
        table.get heap type row col = .error (.typeMismatch (.block cell.type type)) := by
  obtain ⟨place, entry, above, offset, below, block, hlocate, hl⟩ := h.exists_located hp hr hc
  have hfilled := h.filled_of_located hl
  refine ⟨block.cell heap place.row place.col, h.getElem?_column hl, ?_, fun type hne => ?_⟩
  · rw [get, hlocate, ok_bind, Arena.block_eq_ok.2 hl.block_eq, ok_bind]
    exact block.get_self hfilled hl.row_lt hl.col_lt
  · rw [get, hlocate, ok_bind, Arena.block_eq_ok.2 hl.block_eq, ok_bind]
    exact Block.get_of_ne heap hne place.row place.col

/-- A read gives what is found at the origin of the cell. -/
theorem get_origin (h : table.Consistent heap) (hp : table.pending = none) {origin : Origin}
    (ho : (table.origins col)[row]? = some origin) :
    table.get heap origin.type row col = .ok (origin.value heap) ∧
      ∀ type, type ≠ origin.type →
        table.get heap type row col = .error (.typeMismatch (.block origin.type type)) := by
  obtain ⟨hc, -⟩ := h.exists_block ho
  obtain ⟨hr, -⟩ := List.getElem?_eq_some_iff.1 ho
  obtain ⟨cell, hcell, hget⟩ := h.get_eq hp (h.length_origins hp hc ▸ hr) hc
  rw [column_eq_map, List.getElem?_map, ho] at hcell
  obtain rfl : origin.read heap = cell := Option.some.inj hcell
  exact hget

section Congr

variable {other : Table} {heap' : Heap} {col' : Nat} (h : table.Consistent heap)
  (ho : other.Consistent heap')

include h ho

theorem get_of_cell (hp : table.pending = none) (hpo : other.pending = none)
    (hr : row < table.rows) (hro : row < other.rows) (hc : col < table.cols)
    (hco : col' < other.cols)
    (hcell : (other.column heap' col')[row]? = (table.column heap col)[row]?)
    (type : ScalarType) : other.get heap' type row col' = table.get heap type row col := by
  obtain ⟨cell, hfound, hget, hne⟩ := h.get_eq hp hr hc
  obtain ⟨cell', hfound', hget', hne'⟩ := ho.get_eq hpo hro hco
  rw [hcell] at hfound'
  obtain rfl := Option.some.inj (hfound.symm.trans hfound')
  by_cases htype : type = cell.type
  · subst htype
    rw [hget, hget']
  · rw [hne type htype, hne' type htype]

/-- What a read answers depends on the size of the table and the cell alone. -/
theorem get_congr (hp : other.pending = table.pending) (hr : other.rows = table.rows)
    (hc : other.cols = table.cols)
    (hcell : (other.column heap' col)[row]? = (table.column heap col)[row]?)
    (type : ScalarType) : other.get heap' type row col = table.get heap type row col := by
  by_cases hin : table.pending = none ∧ row < table.rows ∧ col < table.cols
  · obtain ⟨hcomplete, hrow, hcol⟩ := hin
    exact h.get_of_cell ho hcomplete (hp ▸ hcomplete) hrow (hr ▸ hrow) hcol (hc ▸ hcol) hcell type
  · have hcheck : other.checkCell row col = table.checkCell row col := by
      rw [checkCell, checkCell, checkComplete, checkComplete, checkRow, checkRow, checkCol, checkCol,
        hp, hr, hc]
    cases hfault : table.checkCell row col with
    | ok u => exact absurd (checkCell_eq_ok.1 hfault) hin
    | error fault =>
      rw [get, get, locate, locate, hcheck, hfault]
      rfl

end Congr

theorem set_eq_ok (h : table.Consistent heap) {type : ScalarType} {value : type.Carrier}
    {result : Heap × Table} (hok : table.set heap type row col value = .ok result) :
    table.pending = none ∧ row < table.rows ∧ col < table.cols ∧
      ∃ place entry above offset below, ∃ dense : Dense type,
        table.Located row col place entry above offset below ⟨type, dense⟩ ∧
        result.1 = (dense.storage.write heap (dense.offset place.row place.col) value).1 ∧
        result.2 = { table with arena := table.arena.setBlock place.block ⟨type, { dense with
          storage := (dense.storage.write heap (dense.offset place.row place.col) value).2 }⟩ } := by
  obtain ⟨place, hplace, hok⟩ := refuse_bind_eq_ok_iff.1 hok
  obtain ⟨block, hblock, hok⟩ := refuse_bind_eq_ok_iff.1 hok
  obtain ⟨⟨later, written⟩, hset, hok⟩ := within_bind_eq_ok_iff.1 hok
  cases hok
  obtain ⟨hp, hr, hc, entry, above, offset, below, found, hl⟩ := h.located_of_ok hplace
  obtain rfl := Option.some.inj (hl.block_eq.symm.trans (Arena.block_eq_ok.1 hblock))
  obtain ⟨dense, rfl, -, -, rfl, rfl⟩ := Block.set_eq_ok hset
  exact ⟨hp, hr, hc, place, entry, above, offset, below, dense, hl, rfl, rfl⟩

theorem set (h : table.Consistent heap) {type : ScalarType} {value : type.Carrier}
    {result : Heap × Table} (hok : table.set heap type row col value = .ok result) :
    heap.GrowsTo result.1 ∧ result.2.Consistent result.1 := by
  obtain ⟨-, -, -, place, entry, above, offset, below, dense, hl, hheap, htable⟩ := h.set_eq_ok hok
  have hgrows : heap.GrowsTo result.1 := hheap ▸ dense.storage.growsTo_write heap _ value
  refine ⟨hgrows, htable ▸ h.with_blocks rfl (Arena.extends_setBlock hl.block_eq ⟨rfl, rfl, rfl⟩) ?_⟩
  intro block hm
  rcases Array.mem_or_eq_of_mem_setIfInBounds hm with hm | rfl
  · exact (h.filled block hm).grow hgrows
  · have hfilled : dense.Filled heap := h.filled_of_located hl
    refine ⟨hfilled.rows_pos, hfilled.cols_pos, ?_⟩
    rw [hheap]
    exact Nat.le_trans hfilled.stored (Nat.le_of_eq (dense.storage.size_cells_write heap _ value).symm)

/-- A write overwrites one cell where it is kept. If that is its block, the heap stays as it is; if
it is a buffer, all origins do. -/
theorem origins_set (h : table.Consistent heap) {type : ScalarType} {value : type.Carrier}
    {result : Heap × Table} (hok : table.set heap type row col value = .ok result) :
    ∃ origin, (table.origins col)[row]? = some origin ∧ origin.type = type ∧
      ((∃ cell, origin = .own cell ∧ result.1 = heap) ∨
        ∃ (buffer : SharedBuffer type) (index : Nat), origin = .shared buffer index ∧
          result.1 = heap.write buffer index value) ∧
      ∀ other, result.2.origins other =
        if other = col then (table.origins col).set row (origin.write ⟨type, value⟩)
        else table.origins other := by
  obtain ⟨-, hlater⟩ := h.set hok
  obtain ⟨-, hr, hc, place, entry, above, offset, below, dense, hl, hheap, htable⟩ :=
    h.set_eq_ok hok
  have hfilled : dense.Filled heap := h.filled_of_located hl
  refine ⟨_, h.getElem?_origins hl, Storage.type_origin _ _, ?_, fun other => ?_⟩
  · rw [hheap]
    rcases dense.storage.heap_write heap (dense.offset place.row place.col) value with
      hown | ⟨buffer, horigin, hwritten⟩
    · exact .inl hown
    · exact .inr ⟨buffer, _, horigin, hwritten⟩
  have hchains : result.2.chains = table.chains := htable ▸ rfl
  by_cases hother : table.cols ≤ other
  · have hcols : result.2.cols = table.cols := htable ▸ rfl
    rw [hlater.origins_eq_nil (hcols ▸ hother), h.origins_eq_nil hother, if_neg (by omega)]
  obtain ⟨entry', hm, hmem⟩ := h.exists_entry (Nat.lt_of_not_le hother)
  rw [hlater.origins_of_mem (hchains ▸ hm) hmem, h.origins_of_mem hm hmem, htable,
    Arena.chain_setBlock]
  -- the block may stand behind other columns too, but the offset of the cell is not theirs
  by_cases hcol : other = col
  · subst hcol
    obtain rfl := h.tiles.unique hm hl.mem hmem hl.col_mem
    obtain ⟨-, hordered⟩ := h.supports entry' hm
    rw [if_pos rfl, h.origins_of_mem hm hmem]
    rw [hl.chain] at hordered ⊢
    have hcol : other - offset = place.col := by rw [← hl.col_eq, Nat.add_sub_cancel]
    rw [Arena.origins_setBlock_at hl.block_eq hordered, Arena.origins_append,
      Arena.origins_cons hl.block_eq]
    dsimp only
    rw [hcol, hfilled.origins_write value hl.row_lt hl.col_lt hl.col_lt, if_pos rfl, ← hl.row_eq,
      ← Arena.length_origins _ other above, List.set_append_right _ _ (Nat.le_add_right _ _),
      Nat.add_sub_cancel_left,
      List.set_append_left _ _ (by rw [Block.length_origins]; exact hl.row_lt)]
  · rw [if_neg hcol]
    apply Arena.origins_setBlock hl.block_eq
    intro placement hp hblock
    have hoffset := h.shared entry' hm entry hl.mem placement hp ⟨place.block, offset⟩
      (by simp [hl.chain]) hblock
    obtain ⟨⟨type', hplaced⟩, -⟩ := h.supports entry' hm
    obtain ⟨block, hfound, -, hle, hlt⟩ := hplaced placement hp
    rw [hblock, hl.block_eq] at hfound
    obtain rfl := Option.some.inj hfound
    have hcols := hl.col_eq
    rw [Interval.mem_def] at hmem
    have hinside : other - placement.offset < dense.cols := by
      have : other - placement.offset ≤ entry'.1.upper - placement.offset := by omega
      exact Nat.lt_of_le_of_lt this hlt
    rw [hfilled.origins_write value hl.row_lt hl.col_lt hinside, if_neg]
    dsimp only at hoffset
    omega

/-- A write to a block with cells of its own changes one cell of the table and not the heap. -/
theorem column_set (h : table.Consistent heap) {type : ScalarType} {value : type.Carrier}
    {result : Heap × Table} (hok : table.set heap type row col value = .ok result)
    (ho : ∀ block ∈ table.arena.blocks, block.ownership ≠ .borrowed) :
    result.1 = heap ∧ ∀ other, other < table.cols → result.2.column heap other =
      if other = col then (table.column heap col).set row ⟨type, value⟩
      else table.column heap other := by
  obtain ⟨origin, horigin, -, hwritten, hothers⟩ := h.origins_set hok
  obtain ⟨-, block, hblock, row', col', -, -, hsame⟩ := h.exists_block horigin
  rcases hwritten with ⟨cell, rfl, hheap⟩ | ⟨buffer, index, rfl, -⟩
  · refine ⟨hheap, fun other _ => ?_⟩
    rw [column_eq_map, hothers other]
    split
    · rw [List.map_set, column_eq_map]
      rfl
    · rw [column_eq_map]
  · obtain ⟨cell, howned⟩ := Storage.origin_of_owned (ho block hblock) (block.dense.offset row' col')
    cases hsame.trans howned

end Consistent

end Table

end TypedTable
