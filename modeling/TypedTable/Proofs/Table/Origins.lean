import TypedTable.Proofs.Table.Merging

/-!
# Where the cells of a table are kept

Without a heap one cannot say what a cell holds, but where its value is to be found: with the block
itself, or in an element of a buffer. Tables grow and are merged without regard to the heap, so it
is the origins of their cells that are followed; a read is a look at the origin.
-/

set_option autoImplicit false

namespace TypedTable

structure Cell where
  type : ScalarType
  value : type.Carrier

inductive Origin where
  | own (cell : Cell)
  | shared {type : ScalarType} (buffer : SharedBuffer type) (index : Nat)

namespace Origin

def type : Origin → ScalarType
  | own cell => cell.type
  | @shared type _ _ => type

def value (heap : Heap) : (origin : Origin) → origin.type.Carrier
  | own cell => cell.value
  | @shared type buffer index => (heap.contents buffer)[index]?.getD type.blank

def read (heap : Heap) (origin : Origin) : Cell := ⟨origin.type, origin.value heap⟩

section Shared

variable {type : ScalarType} (heap : Heap) (buffer : SharedBuffer type) {index : Nat}
  (value : type.Carrier)

theorem value_write_self (hi : index < (heap.contents buffer).size) :
    (shared buffer index).value (heap.write buffer index value) = value := by
  rw [Origin.value, heap.contents_write_self, Array.getElem?_setIfInBounds_self_of_lt hi,
    Option.getD_some]

theorem read_write_of_ne {origin : Origin} (h : origin ≠ shared buffer index) :
    origin.read (heap.write buffer index value) = origin.read heap := by
  cases origin with
  | own cell => rfl
  | @shared other reader place =>
    by_cases he : (⟨other, reader⟩ : (type : ScalarType) × SharedBuffer type) = ⟨type, buffer⟩
    · cases he
      have hne : index ≠ place := fun he => h (he ▸ rfl)
      simp only [read, Origin.value, heap.contents_write_self,
        Array.getElem?_setIfInBounds_ne hne]
    · simp only [read, Origin.value, heap.contents_write_of_ne index value he]

end Shared

/-- The origin of a cell that was overwritten. A shared element is still where it was. -/
def write (cell : Cell) : Origin → Origin
  | own _ => own cell
  | shared buffer index => shared buffer index

end Origin

namespace Storage

variable {type : ScalarType}

def origin (storage : Storage type) (index : Nat) : Origin :=
  match storage with
  | copied cells => .own ⟨type, cells[index]?.getD type.blank⟩
  | adopted cells => .own ⟨type, cells[index]?.getD type.blank⟩
  | borrowed buffer => .shared buffer index

@[simp] theorem type_origin (storage : Storage type) (index : Nat) :
    (storage.origin index).type = type := by
  cases storage <;> rfl

/-- Cells of its own are all that a storage has if it is not borrowed. -/
theorem origin_of_owned {storage : Storage type} (ho : storage.ownership ≠ .borrowed)
    (index : Nat) : ∃ cell, storage.origin index = .own cell := by
  cases storage with
  | copied cells => exact ⟨_, rfl⟩
  | adopted cells => exact ⟨_, rfl⟩
  | borrowed buffer => exact absurd rfl ho

theorem origin_truncate (storage : Storage type) {index size : Nat} (h : index < size) :
    (storage.truncate size).origin index = storage.origin index := by
  have hsame (ho : storage.ownership ≠ .borrowed) := storage.getElem?_cells_truncate {} ho h
  cases storage with
  | copied cells | adopted cells =>
    exact congrArg (fun value => Origin.own ⟨type, value.getD type.blank⟩) (hsame nofun)
  | borrowed buffer => rfl

/-- A write goes to the heap where the element is shared, and nowhere else. -/
theorem heap_write (heap : Heap) (storage : Storage type) (index : Nat) (value : type.Carrier) :
    (∃ cell, storage.origin index = .own cell ∧ (storage.write heap index value).1 = heap) ∨
    ∃ buffer, storage.origin index = .shared buffer index ∧
      (storage.write heap index value).1 = heap.write buffer index value := by
  cases storage with
  | copied cells => exact .inl ⟨_, rfl, rfl⟩
  | adopted cells => exact .inl ⟨_, rfl, rfl⟩
  | borrowed buffer => exact .inr ⟨buffer, rfl, rfl⟩

theorem origin_write {heap : Heap} {storage : Storage type} {index : Nat}
    (hi : index < (storage.cells heap).size) (value : type.Carrier) (other : Nat) :
    (storage.write heap index value).2.origin other =
      if other = index then (storage.origin index).write ⟨type, value⟩
      else storage.origin other := by
  cases storage with
  | copied cells | adopted cells =>
    have hlt : index < cells.size := hi
    split
    next he => simp [write, origin, Origin.write, he, hlt]
    next hne => simp [write, origin, Ne.symm hne]
  | borrowed buffer =>
    split
    next he => rw [he]; rfl
    next => rfl

end Storage

namespace Block

def origin (block : Block) (row col : Nat) : Origin :=
  block.dense.storage.origin (block.dense.offset row col)

def origins (block : Block) (col : Nat) : List Origin :=
  (List.range block.rows).map fun row => block.origin row col

@[simp] theorem length_origins (block : Block) (col : Nat) :
    (block.origins col).length = block.rows := by
  simp [origins]

theorem exists_of_mem_origins {block : Block} {col : Nat} {origin : Origin}
    (hm : origin ∈ block.origins col) : ∃ row, row < block.rows ∧ origin = block.origin row col := by
  obtain ⟨row, hrow, rfl⟩ := List.mem_map.1 hm
  exact ⟨row, List.mem_range.1 hrow, rfl⟩

theorem getElem?_origins (block : Block) {row : Nat} (col : Nat) (hr : row < block.rows) :
    (block.origins col)[row]? = some (block.origin row col) := by
  simp [origins, hr]

end Block

/-- A write changes one origin of one column of a block, and none if the block is borrowed. -/
theorem Dense.Filled.origins_write {heap : Heap} {type : ScalarType} {dense : Dense type}
    (h : dense.Filled heap) (value : type.Carrier) {row col col' : Nat} (hr : row < dense.rows)
    (hc : col < dense.cols) (hc' : col' < dense.cols) :
    (Block.mk type { dense with
        storage := (dense.storage.write heap (dense.offset row col) value).2 }).origins col' =
      if col' = col then
        ((Block.mk type dense).origins col).set row
          (((Block.mk type dense).origin row col).write ⟨type, value⟩)
      else (Block.mk type dense).origins col' := by
  have hlt : dense.offset row col < (dense.storage.cells heap).size :=
    Nat.lt_of_lt_of_le (dense.order.offset_lt hr hc) h.stored
  have horigin : ∀ row' < dense.rows, (Block.mk type { dense with
        storage := (dense.storage.write heap (dense.offset row col) value).2 }).origin row' col' =
      if row' = row ∧ col' = col then ((Block.mk type dense).origin row col).write ⟨type, value⟩
      else (Block.mk type dense).origin row' col' := by
    intro row' hr'
    refine (Storage.origin_write hlt value (dense.offset row' col')).trans ?_
    by_cases hsame : row' = row ∧ col' = col
    · obtain ⟨rfl, rfl⟩ := hsame
      rw [if_pos rfl, if_pos ⟨rfl, rfl⟩]
      rfl
    · rw [if_neg hsame, if_neg]
      · rfl
      · exact fun he => hsame (dense.order.offset_inj hr' hc' hr hc he)
  apply List.ext_getElem?
  intro row'
  by_cases hr' : row' < dense.rows
  · rw [Block.getElem?_origins _ col' hr', horigin row' hr']
    by_cases hcol : col' = col
    · subst hcol
      by_cases hrow : row' = row
      · subst hrow
        simp [Block.rows, hr']
      · simp [hrow, Ne.symm hrow, Block.getElem?_origins ⟨type, dense⟩ col' hr']
    · simp [hcol, Block.getElem?_origins ⟨type, dense⟩ col' hr']
  · split <;> simp [Block.origins, Block.rows, hr']

namespace Arena

def placedOrigins (arena : Arena) (col : Nat) (placement : Placement) : List Origin :=
  (arena.blocks[placement.block]?).elim [] (·.origins (col - placement.offset))

def origins (arena : Arena) (col : Nat) (chain : List Placement) : List Origin :=
  chain.flatMap (arena.placedOrigins col)

variable {arena later : Arena} {col : Nat} {chain : List Placement}

theorem origins_cons {block : Block} {placement : Placement}
    (hb : arena.blocks[placement.block]? = some block) :
    arena.origins col (placement :: chain) =
      block.origins (col - placement.offset) ++ arena.origins col chain := by
  rw [origins, List.flatMap_cons, placedOrigins, hb]
  rfl

theorem origins_append (arena : Arena) (col : Nat) (chain below : List Placement) :
    arena.origins col (chain ++ below) = arena.origins col chain ++ arena.origins col below := by
  simp [origins]

theorem length_origins (arena : Arena) (col : Nat) (chain : List Placement) :
    (arena.origins col chain).length = arena.height chain := by
  induction chain with
  | nil => rfl
  | cons placement below ih =>
    rw [origins, List.flatMap_cons, List.length_append, height, placedOrigins]
    congr 1
    cases arena.blocks[placement.block]? with
    | none => rfl
    | some block => exact block.length_origins (col - placement.offset)

theorem origins_congr (h : ∀ placement ∈ chain,
    later.blocks[placement.block]? = arena.blocks[placement.block]?) :
    later.origins col chain = arena.origins col chain := by
  apply List.flatMap_congr
  intro placement hm
  rw [placedOrigins, placedOrigins, h placement hm]

theorem origins_addBlock (h : ∀ placement ∈ chain, placement.block < arena.blocks.size)
    (block : Block) : (arena.addBlock block).origins col chain = arena.origins col chain := by
  apply origins_congr
  intro placement hm
  rw [addBlock, Array.getElem?_push, if_neg (Nat.ne_of_lt (h placement hm))]

theorem origins_new (arena : Arena) (block : Block) (col offset : Nat) :
    (arena.addBlock block).origins col [⟨arena.blocks.size, offset⟩] =
      block.origins (col - offset) := by
  simp [origins, placedOrigins, blocks_addBlock]

theorem origins_append_right (arena moved : Arena) (shift col : Nat) (chain : List Placement) :
    (arena.append moved shift).origins (col + shift)
        (chain.map (Placement.renumber arena.blocks.size shift)) =
      moved.origins col chain := by
  rw [origins, List.flatMap_map]
  apply List.flatMap_congr
  intro placement _
  rw [placedOrigins, Placement.renumber, blocks_append_right, Nat.add_sub_add_right]
  rfl

theorem exists_of_mem_origins {origin : Origin} (hm : origin ∈ arena.origins col chain) :
    ∃ placement ∈ chain, ∃ block, arena.blocks[placement.block]? = some block ∧
      ∃ row, row < block.rows ∧ origin = block.origin row (col - placement.offset) := by
  obtain ⟨placement, hp, hm⟩ := List.mem_flatMap.1 hm
  rw [placedOrigins] at hm
  cases hblock : arena.blocks[placement.block]? with
  | none => simp [hblock] at hm
  | some block =>
    rw [hblock] at hm
    exact ⟨placement, hp, block, hblock, Block.exists_of_mem_origins hm⟩

section Write

variable {index : Nat} {block written : Block}

/-- Only a block with a change in the column changes it. -/
theorem origins_setBlock (hb : arena.blocks[index]? = some block)
    (h : ∀ placement ∈ chain, placement.block = index →
      written.origins (col - placement.offset) = block.origins (col - placement.offset)) :
    (arena.setBlock index written).origins col chain = arena.origins col chain := by
  have hlt := (Array.getElem?_eq_some_iff.1 hb).1
  apply List.flatMap_congr
  intro placement hm
  rw [placedOrigins, placedOrigins, setBlock, Array.getElem?_setIfInBounds]
  by_cases heq : index = placement.block
  · rw [if_pos heq, if_pos hlt, ← heq, hb]
    exact h placement hm heq.symm
  · rw [if_neg heq]

/-- A block that is in a chain once is replaced in one place of a column. -/
theorem origins_setBlock_at (hb : arena.blocks[index]? = some block) {offset : Nat}
    {above below : List Placement}
    (ho : (above ++ ⟨index, offset⟩ :: below).Pairwise fun a b => a.block < b.block) :
    (arena.setBlock index written).origins col (above ++ ⟨index, offset⟩ :: below) =
      arena.origins col above ++
        (written.origins (col - offset) ++ arena.origins col below) := by
  obtain ⟨-, hbelow, hapart⟩ := List.pairwise_append.1 ho
  have habove : ∀ placement ∈ above, placement.block ≠ index := fun placement hp =>
    Nat.ne_of_lt (hapart placement hp _ List.mem_cons_self)
  have hafter : ∀ placement ∈ below, placement.block ≠ index := fun placement hp =>
    Nat.ne_of_gt ((List.pairwise_cons.1 hbelow).1 placement hp)
  have hlt := (Array.getElem?_eq_some_iff.1 hb).1
  have hplaced : (arena.setBlock index written).blocks[index]? = some written := by
    rw [setBlock, Array.getElem?_setIfInBounds, if_pos rfl, if_pos hlt]
  rw [origins_append, origins_cons hplaced,
    origins_setBlock hb fun placement hp he => absurd he (habove placement hp),
    origins_setBlock hb fun placement hp he => absurd he (hafter placement hp)]

end Write

end Arena

namespace Table

def origins (table : Table) (col : Nat) : List Origin :=
  match table.chains.find? col with
  | some (_, head) => table.arena.origins col (table.arena.chain head)
  | none => []

theorem origins_congr {table later : Table} (ha : later.arena = table.arena)
    (hc : later.chains = table.chains) (col : Nat) : later.origins col = table.origins col := by
  rw [origins, origins, ha, hc]

namespace Consistent

variable {heap : Heap} {table other : Table} {entry : Interval × Nat} {col : Nat}

theorem origins_of_mem (h : table.Consistent heap) (hm : entry ∈ table.chains.entries)
    (hc : col ∈ entry.1) :
    table.origins col = table.arena.origins col (table.arena.chain entry.2) := by
  rw [origins, RangeMap.find?_of_mem h.sorted hm hc]

theorem exists_entry (h : table.Consistent heap) (hc : col < table.cols) :
    ∃ entry ∈ table.chains.entries, col ∈ entry.1 :=
  h.tiles.exists_mem (Nat.zero_le _) hc

/-- A cell is one of a block in the chain of its column. -/
theorem exists_block (h : table.Consistent heap) {row : Nat} {origin : Origin}
    (ho : (table.origins col)[row]? = some origin) :
    col < table.cols ∧ ∃ block ∈ table.arena.blocks, ∃ row' col', row' < block.rows ∧
      col' < block.cols ∧ origin = block.origin row' col' := by
  have hmem := List.mem_of_getElem? ho
  unfold origins at hmem
  cases hfind : table.chains.find? col with
  | none => simp [hfind] at hmem
  | some entry =>
    obtain ⟨hm, hcol⟩ := RangeMap.mem_of_find? hfind
    rw [hfind] at hmem
    obtain ⟨placement, hp, block, hblock, row', hrow, rfl⟩ := Arena.exists_of_mem_origins hmem
    obtain ⟨⟨type, hplaced⟩, -⟩ := h.supports entry hm
    obtain ⟨found, hfound, -, -, hupper⟩ := hplaced placement hp
    obtain rfl := Option.some.inj (hblock.symm.trans hfound)
    have hle := hcol.2
    refine ⟨Nat.lt_of_le_of_lt hle (h.lt_cols hm), block, Array.mem_of_getElem? hblock, row',
      col - placement.offset, hrow, ?_, rfl⟩
    omega

theorem origins_eq_nil (h : table.Consistent heap) (hc : table.cols ≤ col) :
    table.origins col = [] := by
  cases horigins : table.origins col with
  | nil => rfl
  | cons origin later =>
    have hfirst : (table.origins col)[0]? = some origin := by rw [horigins, List.getElem?_cons_zero]
    obtain ⟨hlt, -⟩ := h.exists_block hfirst
    omega

/-- A column of a complete table has an origin for every row. -/
theorem length_origins (h : table.Consistent heap) (hp : table.pending = none)
    (hc : col < table.cols) : (table.origins col).length = table.rows := by
  obtain ⟨entry, hm, hcol⟩ := h.exists_entry hc
  rw [h.origins_of_mem hm hcol, Arena.length_origins, h.height_eq hp hm]

theorem origins_addColumns (h : table.Consistent heap) {block : Block} {span : Interval}
    (hl : span.lower = table.cols) (hc : col < table.cols + block.cols)
    (hn : (table.addColumns block
      ⟨table.chains.entries ++ [(span, table.arena.nodes.size)]⟩).Consistent heap) :
    (table.addColumns block ⟨table.chains.entries ++ [(span, table.arena.nodes.size)]⟩).origins
        col =
      if col < table.cols then table.origins col else block.origins (col - table.cols) := by
  obtain ⟨entry, hm, hcol⟩ := hn.exists_entry hc
  rw [hn.origins_of_mem hm hcol]
  simp only [Table.addColumns, Arena.chain_addBlock]
  rcases h.entry_addColumns span hm with ⟨hm, hchain⟩ | ⟨rfl, hchain⟩
  · have hlt := h.lt_cols hm
    rw [if_pos (Nat.lt_of_le_of_lt hcol.2 hlt), hchain, h.origins_of_mem hm hcol]
    exact Arena.origins_addBlock (fun placement hp => h.block_lt hm hp) block
  · have hle : table.cols ≤ col := hl ▸ hcol.1
    rw [if_neg (Nat.not_lt_of_le hle), hchain]
    exact Arena.origins_new _ block col table.cols

theorem origins_linkRows (h : table.Consistent heap) {block : Block} {span : Interval}
    {tails : List Nat} (hc : col < table.cols)
    (hin : ∀ entry ∈ table.chains.entries, entry.1.meets span = true →
      span.lower ≤ entry.1.lower ∧ entry.1.upper ≤ span.upper)
    (ht : ((table.chains.range span).map (·.2)).map table.arena.tail? = tails.map some) :
    (table.linkRows span block tails).origins col =
      table.origins col ++ if span.contains col then block.origins (col - span.lower) else [] := by
  obtain ⟨-, hchain⟩ := h.linked block ht
  obtain ⟨entry, hm, hcol⟩ := h.exists_entry hc
  have hsorted : (table.linkRows span block tails).chains.Sorted := h.sorted
  have hmeets : entry.1.meets span = true ↔ span.contains col = true := by
    rw [Interval.contains_iff, Interval.meets_iff]
    rw [Interval.mem_def] at hcol ⊢
    constructor
    · intro hmeets
      have := hin entry hm (Interval.meets_iff.2 hmeets)
      omega
    · omega
  have hold : (table.linkRows span block tails).arena.origins col (table.arena.chain entry.2) =
      table.origins col := by
    rw [h.origins_of_mem hm hcol]
    apply Arena.origins_congr
    intro placement hp
    have hlt := h.block_lt hm hp
    rw [blocks_linkRows, Arena.addBlock, Array.getElem?_push,
      if_neg (Nat.ne_of_lt hlt)]
  rw [origins, RangeMap.find?_of_mem hsorted hm hcol]
  dsimp only
  rw [hchain entry hm]
  by_cases hspan : span.contains col = true
  · rw [if_pos (hmeets.2 hspan), if_pos hspan, Arena.origins_append, hold]
    congr 1
    refine (Arena.origins_congr fun placement _ => ?_).trans
      (Arena.origins_new table.arena block col span.lower)
    rw [blocks_linkRows]
  · rw [if_neg (mt hmeets.1 hspan), if_neg hspan, hold, List.append_nil]

theorem origins_merged (h : table.Consistent heap) (ho : other.Consistent heap)
    (hn : (merged table other).Consistent heap) (hc : col < table.cols + other.cols) :
    (merged table other).origins col =
      if col < table.cols then table.origins col else other.origins (col - table.cols) := by
  obtain ⟨entry, hm, hcol⟩ := hn.exists_entry hc
  rw [hn.origins_of_mem hm hcol]
  rcases h.entry_merged ho hm with ⟨hm, hchain⟩ | ⟨moved, hm, hspan, hchain⟩
  · have hlt := h.lt_cols hm
    rw [if_pos (Nat.lt_of_le_of_lt hcol.2 hlt), hchain, h.origins_of_mem hm hcol]
    apply Arena.origins_congr
    intro placement hp
    rw [merged, Arena.append, Array.getElem?_append, if_pos (h.block_lt hm hp)]
  · rw [hspan, Interval.mem_def] at hcol
    simp only [Interval.shift] at hcol
    have hmem : col - table.cols ∈ moved.1 := by
      rw [Interval.mem_def]
      omega
    have hcancel : col - table.cols + table.cols = col := by omega
    rw [if_neg (by omega), hchain, ho.origins_of_mem hm hmem]
    have hright := Arena.origins_append_right table.arena other.arena table.cols
      (col - table.cols) (other.arena.chain moved.2)
    rwa [hcancel] at hright

end Consistent

end Table

end TypedTable
