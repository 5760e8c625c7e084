import TypedTable.Proofs.Interval.Tiling
import TypedTable.Proofs.Labels
import TypedTable.Proofs.Storage
import TypedTable.Proofs.Table.Paths
import TypedTable.Table.Basic

/-!
# Consistent tables

The chains of a consistent table tile its columns, no node is in two of them, and the blocks of a
chain have one type, all of its columns and together the rows of the table. While rows are pending
the chains on the right lack just these.
-/

set_option autoImplicit false

namespace TypedTable

namespace Arena

def height (arena : Arena) : List Placement → Nat
  | [] => 0
  | placement :: below =>
    (arena.blocks[placement.block]?).elim 0 Block.rows + arena.height below

/-- A chain through blocks of one type that have the columns of `span`, every block once. -/
structure Supports (arena : Arena) (span : Interval) (chain : List Placement) : Prop where
  placed : ∃ type, ∀ placement ∈ chain, ∃ block, arena.blocks[placement.block]? = some block ∧
    block.type = type ∧ placement.offset ≤ span.lower ∧
    span.upper - placement.offset < block.cols
  ordered : chain.Pairwise fun a b => a.block < b.block

def Extends (arena later : Arena) : Prop :=
  ∀ (index : Nat) (block : Block), arena.blocks[index]? = some block →
    ∃ other, later.blocks[index]? = some other ∧ block.SameShape other

variable {arena later : Arena} {span : Interval} {chain : List Placement}

theorem Supports.extend (h : arena.Supports span chain) (he : arena.Extends later) :
    later.Supports span chain := by
  obtain ⟨⟨type, hplaced⟩, hordered⟩ := h
  refine ⟨⟨type, fun placement hmem => ?_⟩, hordered⟩
  obtain ⟨block, hblock, htype, hoffset, hcols⟩ := hplaced placement hmem
  obtain ⟨other, hother, hshape⟩ := he _ block hblock
  exact ⟨other, hother, hshape.type.trans htype, hoffset, hshape.cols ▸ hcols⟩

theorem height_congr (h : ∀ placement ∈ chain,
    (later.blocks[placement.block]?).elim 0 Block.rows =
      (arena.blocks[placement.block]?).elim 0 Block.rows) :
    later.height chain = arena.height chain := by
  induction chain with
  | nil => rfl
  | cons placement below ih =>
    rw [height, height, h placement (by simp), ih fun p hp => h p (by simp [hp])]

theorem Supports.height_extend (h : arena.Supports span chain) (he : arena.Extends later) :
    later.height chain = arena.height chain := by
  obtain ⟨⟨type, hplaced⟩, -⟩ := h
  apply height_congr
  intro placement hmem
  obtain ⟨block, hblock, -⟩ := hplaced placement hmem
  obtain ⟨other, hother, hshape⟩ := he _ block hblock
  rw [hblock, hother]
  exact hshape.rows

theorem Supports.block_lt (h : arena.Supports span chain) {placement : Placement}
    (hm : placement ∈ chain) : placement.block < arena.blocks.size := by
  obtain ⟨⟨type, hplaced⟩, -⟩ := h
  obtain ⟨block, hblock, -⟩ := hplaced placement hm
  exact (Array.getElem?_eq_some_iff.1 hblock).1

theorem extends_addBlock (arena : Arena) (block : Block) : arena.Extends (arena.addBlock block) := by
  intro index old hold
  have hlt := (Array.getElem?_eq_some_iff.1 hold).1
  refine ⟨old, ?_, .refl old⟩
  rw [addBlock, Array.getElem?_push, if_neg (Nat.ne_of_lt hlt), hold]

theorem extends_setBlock {index : Nat} {old block : Block} (hold : arena.blocks[index]? = some old)
    (hs : old.SameShape block) : arena.Extends (arena.setBlock index block) := by
  intro place found hfound
  have hlt := (Array.getElem?_eq_some_iff.1 hold).1
  rw [setBlock, Array.getElem?_setIfInBounds]
  by_cases h : index = place
  · subst h
    obtain rfl := Option.some.inj (hold.symm.trans hfound)
    exact ⟨block, by rw [if_pos rfl, if_pos hlt], hs⟩
  · exact ⟨found, by rw [if_neg h, hfound], .refl found⟩

theorem blocks_addBlock (arena : Arena) (block : Block) :
    (arena.addBlock block).blocks[arena.blocks.size]? = some block := by
  rw [addBlock, Array.getElem?_push, if_pos rfl]

theorem supports_addBlock (arena : Arena) (block : Block) (hc : span.size ≤ block.cols) :
    (arena.addBlock block).Supports span [⟨arena.blocks.size, span.lower⟩] := by
  refine ⟨⟨block.type, fun placement hm => ?_⟩, List.pairwise_singleton _ _⟩
  obtain rfl := List.mem_singleton.1 hm
  refine ⟨block, arena.blocks_addBlock block, rfl, Nat.le_refl _, ?_⟩
  have := span.lower_le_upper
  simp only [Interval.size] at hc ⊢
  omega

theorem Supports.append (h : arena.Supports span chain) {block : Block} {offset : Nat}
    (ht : ∀ placement ∈ chain, ∀ old, arena.blocks[placement.block]? = some old →
      old.type = block.type)
    (ho : offset ≤ span.lower) (hc : span.upper - offset < block.cols) :
    (arena.addBlock block).Supports span (chain ++ [⟨arena.blocks.size, offset⟩]) := by
  have hold := h.extend (arena.extends_addBlock block)
  refine ⟨⟨block.type, fun placement hm => ?_⟩, ?_⟩
  · rcases List.mem_append.1 hm with hm | hm
    · obtain ⟨⟨type, hplaced⟩, -⟩ := h
      obtain ⟨old, hblock, -, hoffset, hcols⟩ := hplaced placement hm
      obtain ⟨other, hother, hshape⟩ := arena.extends_addBlock block _ old hblock
      exact ⟨other, hother, hshape.type.trans (ht placement hm old hblock), hoffset,
        hshape.cols ▸ hcols⟩
    · obtain rfl := List.mem_singleton.1 hm
      exact ⟨block, arena.blocks_addBlock block, rfl, ho, hc⟩
  · refine List.pairwise_append.2 ⟨h.ordered, List.pairwise_singleton _ _, fun a ha b hb => ?_⟩
    obtain rfl := List.mem_singleton.1 hb
    exact h.block_lt ha

theorem height_append (arena : Arena) (chain below : List Placement) :
    arena.height (chain ++ below) = arena.height chain + arena.height below := by
  induction chain with
  | nil => exact (Nat.zero_add _).symm
  | cons placement chain ih => rw [List.cons_append, height, height, ih, Nat.add_assoc]

theorem height_new (arena : Arena) (block : Block) (offset : Nat) :
    (arena.addBlock block).height [⟨arena.blocks.size, offset⟩] = block.rows := by
  simp [height, blocks_addBlock]

section Append

variable (arena moved : Arena) (shift : Nat)

theorem extends_append : arena.Extends (arena.append moved shift) := by
  intro index old hold
  have hlt := (Array.getElem?_eq_some_iff.1 hold).1
  refine ⟨old, ?_, .refl old⟩
  rw [append, Array.getElem?_append, if_pos hlt, hold]

theorem blocks_append_right (index : Nat) :
    (arena.append moved shift).blocks[index + arena.blocks.size]? = moved.blocks[index]? := by
  rw [append, Array.getElem?_append, if_neg (by omega), Nat.add_sub_cancel]

theorem Supports.append_right (h : moved.Supports span chain) :
    (arena.append moved shift).Supports (span.shift shift)
      (chain.map (Placement.renumber arena.blocks.size shift)) := by
  obtain ⟨⟨type, hplaced⟩, hordered⟩ := h
  refine ⟨⟨type, fun placement hm => ?_⟩, ?_⟩
  · obtain ⟨old, hold, rfl⟩ := List.mem_map.1 hm
    obtain ⟨block, hblock, htype, hoffset, hcols⟩ := hplaced old hold
    refine ⟨block, ?_, htype, Nat.add_le_add_right hoffset shift, ?_⟩
    · rw [Placement.renumber, blocks_append_right, hblock]
    · simp only [Interval.shift, Placement.renumber]
      omega
  · exact List.pairwise_map.2 (hordered.imp fun hlt => Nat.add_lt_add_right hlt _)

theorem height_append_right (chain : List Placement) :
    (arena.append moved shift).height (chain.map (Placement.renumber arena.blocks.size shift)) =
      moved.height chain := by
  induction chain with
  | nil => rfl
  | cons placement below ih =>
    rw [List.map_cons, height, height, ih, Placement.renumber, blocks_append_right]

end Append

end Arena

namespace Table

def HasRows (table : Table) : Prop :=
  match table.pending with
  | none => ∀ entry ∈ table.chains.entries,
      table.arena.height (table.arena.chain entry.2) = table.rows
  | some pending =>
    0 < pending.nextCol ∧ pending.nextCol < table.cols ∧
    (∃ entry ∈ table.chains.entries, entry.1.lower = pending.nextCol) ∧
    ∀ entry ∈ table.chains.entries,
      (entry.1.lower < pending.nextCol →
        table.arena.height (table.arena.chain entry.2) = table.rows) ∧
      (pending.nextCol ≤ entry.1.lower →
        table.arena.height (table.arena.chain entry.2) + pending.rows = table.rows)

structure Consistent (heap : Heap) (table : Table) : Prop where
  tiles : Tiles 0 table.chains.entries table.cols
  apart : table.arena.Apart (table.chains.entries.map (·.2))
  supports : ∀ entry ∈ table.chains.entries,
    table.arena.Supports entry.1 (table.arena.chain entry.2)
  /-- A block that several chains share begins at one column. -/
  shared : ∀ a ∈ table.chains.entries, ∀ b ∈ table.chains.entries,
    ∀ placement ∈ table.arena.chain a.2, ∀ other ∈ table.arena.chain b.2,
      placement.block = other.block → placement.offset = other.offset
  hasRows : table.HasRows
  filled : ∀ block ∈ table.arena.blocks, block.Filled heap
  labels : table.labels.Matched table.cols
  noRows : table.cols = 0 → table.rows = 0

theorem Consistent.cols_pos {heap : Heap} {table : Table} (h : table.Consistent heap)
    {pending : PendingRows} (hp : table.pending = some pending) : 0 < table.cols := by
  have hrows := h.hasRows
  rw [HasRows, hp] at hrows
  exact Nat.lt_trans hrows.1 hrows.2.1

/-- The chains of a complete table have all of its rows. -/
theorem Consistent.height_eq {heap : Heap} {table : Table} (h : table.Consistent heap)
    (hp : table.pending = none) {entry : Interval × Nat} (hm : entry ∈ table.chains.entries) :
    table.arena.height (table.arena.chain entry.2) = table.rows := by
  have hrows := h.hasRows
  rw [HasRows, hp] at hrows
  exact hrows entry hm

/-- Blocks may change as long as they keep their shapes. -/
theorem Consistent.with_blocks {heap later : Heap} {table : Table} (h : table.Consistent heap)
    {arena : Arena} (hn : arena.nodes = table.arena.nodes) (he : table.arena.Extends arena)
    (hf : ∀ block ∈ arena.blocks, block.Filled later) :
    ({ table with arena := arena } : Table).Consistent later := by
  have hchain : ∀ head, arena.chain head = table.arena.chain head := Arena.chain_eq_of_nodes hn
  have hheight : ∀ entry ∈ table.chains.entries,
      arena.height (arena.chain entry.2) = table.arena.height (table.arena.chain entry.2) := by
    intro entry hm
    rw [hchain, (h.supports entry hm).height_extend he]
  constructor
  case tiles => exact h.tiles
  case apart => exact h.apart.of_nodes hn
  case supports =>
    intro entry hm
    dsimp only
    rw [hchain]
    exact (h.supports entry hm).extend he
  case shared =>
    dsimp only
    simp only [hchain]
    exact h.shared
  case hasRows =>
    have hrows := h.hasRows
    unfold HasRows at hrows ⊢
    dsimp only
    cases hp : table.pending with
    | none =>
      rw [hp] at hrows
      exact fun entry hm => (hheight entry hm).trans (hrows entry hm)
    | some pending =>
      rw [hp] at hrows
      obtain ⟨hfirst, hlast, hlower, hrows⟩ := hrows
      refine ⟨hfirst, hlast, hlower, fun entry hm => ?_⟩
      rw [hheight entry hm]
      exact hrows entry hm
  case filled => exact hf
  case labels => exact h.labels
  case noRows => exact h.noRows

end Table

end TypedTable
