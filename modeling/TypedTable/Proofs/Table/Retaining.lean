import TypedTable.Proofs.Table.Annotating
import TypedTable.Proofs.Table.Cells

/-!
# Where growth leaves the cells

A table that grows keeps every cell where it is, and its value is to be found where it was. A new
block brings its cells to the right of the columns or below the rows that were there; a merge moves
the cells of the other table to the right.
-/

set_option autoImplicit false

namespace TypedTable.Table

def Retains (table later : Table) : Prop :=
  ∀ (row col : Nat) (origin : Origin), (table.origins col)[row]? = some origin →
    (later.origins col)[row]? = some origin

variable {heap : Heap} {table other later : Table} {type : ScalarType} {rows cols row col : Nat}
  {order : Order} {storage : Storage type}

theorem Retains.refl (table : Table) : table.Retains table := fun _ _ _ ho => ho

theorem Annotates.retains (h : table.Annotates later) : table.Retains later := by
  obtain ⟨labels, selections, -, rfl⟩ := h
  exact fun _ _ _ ho => ho

def OwnsCells (table : Table) : Prop :=
  ∀ (row col : Nat) (origin : Origin), (table.origins col)[row]? = some origin →
    ∃ cell, origin = .own cell

structure SameLayout (table later : Table) : Prop where
  pending : later.pending = table.pending
  rows : later.rows = table.rows
  cols : later.cols = table.cols
  origins : ∀ col, later.origins col = table.origins col

theorem SameLayout.refl (table : Table) : table.SameLayout table := ⟨rfl, rfl, rfl, fun _ => rfl⟩

namespace Consistent

theorem index_lt (h : table.Consistent heap) {buffer : SharedBuffer type} {index : Nat}
    (ho : (table.origins col)[row]? = some (.shared buffer index)) :
    index < (heap.contents buffer).size := by
  obtain ⟨-, ⟨found, rows, cols, order, storage⟩, hblock, row', col', hr, hc, hsame⟩ :=
    h.exists_block ho
  have hfilled := h.filled _ hblock
  cases storage with
  | copied cells => cases hsame
  | adopted cells => cases hsame
  | borrowed =>
    cases hsame
    exact Nat.lt_of_lt_of_le (order.offset_lt hr hc) hfilled.stored

theorem retains_appendColumns (h : table.Consistent heap)
    (hok : table.appendColumns heap rows cols order storage = .ok later) :
    table.Retains later := by
  have hlater := h.appendColumns hok
  obtain ⟨dense, span, -, -, hl, -, -, rfl⟩ := h.appendColumns_eq_ok hok
  intro row col origin ho
  obtain ⟨hc, -⟩ := h.exists_block ho
  rw [h.origins_addColumns hl (Nat.lt_add_right _ hc) hlater, if_pos hc]
  exact ho

theorem ownsCells_appendColumns (h : table.Consistent heap) (hc : table.OwnsCells)
    (ho : storage.ownership ≠ .borrowed)
    (hok : table.appendColumns heap rows cols order storage = .ok later) : later.OwnsCells := by
  have hlater := h.appendColumns hok
  obtain ⟨dense, span, -, -, hl, -, hdense, rfl⟩ := h.appendColumns_eq_ok hok
  obtain ⟨-, -, howned⟩ := Dense.shape_of_make hdense
  intro row col origin horigin
  obtain ⟨hlt, -⟩ := hlater.exists_block horigin
  rw [h.origins_addColumns hl hlt hlater] at horigin
  split at horigin
  · exact hc row col origin horigin
  · obtain ⟨row', -, rfl⟩ := Block.exists_of_mem_origins (List.mem_of_getElem? horigin)
    exact Storage.origin_of_owned (fun hb => ho (howned.symm.trans hb)) _

theorem retains_appendRows (h : table.Consistent heap)
    (hok : table.appendRows heap rows cols order storage = .ok later) : table.Retains later := by
  by_cases hcols : 0 < table.cols
  · obtain ⟨dense, span, tails, -, -, -, -, hin, ht, -, rfl⟩ := h.appendRows_eq_ok hcols hok
    intro row col origin ho
    obtain ⟨hc, -⟩ := h.exists_block ho
    obtain ⟨hr, -⟩ := List.getElem?_eq_some_iff.1 ho
    rw [h.origins_linkRows hc (fun entry hm hmeets => (hin entry hm hmeets).1) ht,
      List.getElem?_append_left hr]
    exact ho
  · rw [appendRows_of_no_cols hcols] at hok
    exact h.retains_appendColumns hok

theorem retains_merged (h : table.Consistent heap) (ho : other.Consistent heap)
    (hn : (merged table other).Consistent heap) : table.Retains (merged table other) := by
  intro row col origin horigin
  obtain ⟨hc, -⟩ := h.exists_block horigin
  rw [h.origins_merged ho hn (Nat.lt_add_right _ hc), if_pos hc]
  exact horigin

/-- The cells of the other table come to the right of the columns that were there. -/
theorem origin_merged (h : table.Consistent heap) (ho : other.Consistent heap)
    (hn : (merged table other).Consistent heap) {origin : Origin}
    (horigin : (other.origins col)[row]? = some origin) :
    ((merged table other).origins (table.cols + col))[row]? = some origin := by
  obtain ⟨hc, -⟩ := ho.exists_block horigin
  rw [h.origins_merged ho hn (Nat.add_lt_add_left hc _), if_neg (by omega),
    Nat.add_sub_cancel_left]
  exact horigin

/-- A new block on the right has its cells where its storage has them. -/
theorem origin_appendColumns (h : table.Consistent heap)
    (hok : table.appendColumns heap rows cols order storage = .ok later) (hr : row < rows)
    (hc : col < cols) :
    (later.origins (table.cols + col))[row]? =
      some (storage.origin (order.offset row col rows cols)) := by
  have hlater := h.appendColumns hok
  obtain ⟨dense, span, -, -, hl, -, hdense, rfl⟩ := h.appendColumns_eq_ok hok
  obtain ⟨rfl, -, -⟩ := Dense.make_eq_ok hdense
  rw [h.origins_addColumns hl (Nat.add_lt_add_left hc _) hlater, if_neg (by omega),
    Nat.add_sub_cancel_left, Block.getElem?_origins _ _ hr]
  exact congrArg some (storage.origin_truncate (order.offset_lt hr hc))

/-- New rows have their cells where the storage of the block has them, below the rows of the columns
that waited for them. -/
theorem origin_appendRows (h : table.Consistent heap)
    (hok : table.appendRows heap rows cols order storage = .ok later) (hr : row < rows)
    (hc : col < cols) :
    (later.origins (table.nextRowColumn + col))[table.rows - table.lackedRows + row]? =
      some (storage.origin (order.offset row col rows cols)) := by
  by_cases hcols : 0 < table.cols
  · obtain ⟨dense, span, tails, -, hl, hw, hu, hin, ht, hdense, rfl⟩ :=
      h.appendRows_eq_ok hcols hok
    obtain ⟨rfl, -, -⟩ := Dense.make_eq_ok hdense
    have hmem : table.nextRowColumn + col ∈ span := by
      rw [Interval.mem_def]
      omega
    have hinside := fun entry hm hmeets => (hin entry hm hmeets).1
    obtain ⟨entry, hm, hcol⟩ := h.exists_entry (Nat.lt_of_le_of_lt hmem.2 hu)
    -- the chain of the column is one that the block covers, so it still lacks the pending rows
    have hmeets : entry.1.meets span = true :=
      Interval.meets_iff.2 ⟨Nat.le_trans hcol.1 hmem.2, Nat.le_trans hmem.1 hcol.2⟩
    have hheight := (h.heights hm).2 (hl ▸ (hinside entry hm hmeets).1)
    have hlength : (table.origins (table.nextRowColumn + col)).length =
        table.rows - table.lackedRows := by
      rw [h.origins_of_mem hm hcol, Arena.length_origins]
      omega
    rw [h.origins_linkRows (Nat.lt_of_le_of_lt hmem.2 hu) hinside ht,
      if_pos (Interval.contains_iff.2 hmem), ← hlength,
      List.getElem?_append_right (Nat.le_add_right _ _), Nat.add_sub_cancel_left, hl,
      Nat.add_sub_cancel_left, Block.getElem?_origins _ _ hr]
    exact congrArg some (storage.origin_truncate (order.offset_lt hr hc))
  · have hzero : table.cols = 0 := Nat.eq_zero_of_not_pos hcols
    have hp : table.pending = none :=
      Option.eq_none_iff_forall_ne_some.2 fun pending hp => hcols (h.cols_pos hp)
    rw [appendRows_of_no_cols hcols] at hok
    have horigin := h.origin_appendColumns hok hr hc
    simpa [nextRowColumn, lackedRows, hp, h.noRows hzero, hzero] using horigin

/-- A write to a shared element is one to the buffer, of which the table itself shows nothing. -/
theorem layout_set_shared (h : table.Consistent heap) {buffer : SharedBuffer type} {index : Nat}
    (ho : (table.origins col)[row]? = some (.shared buffer index)) {value : type.Carrier}
    {result : Heap × Table} (hok : table.set heap type row col value = .ok result) :
    result.1 = heap.write buffer index value ∧ table.SameLayout result.2 := by
  obtain ⟨found, hfound, -, hwritten, hothers⟩ := h.origins_set hok
  obtain rfl := Option.some.inj (ho.symm.trans hfound)
  obtain ⟨hlt, hsame⟩ := List.getElem?_eq_some_iff.1 ho
  obtain ⟨-, -, -, place, entry, above, offset, below, dense, -, -, htable⟩ := h.set_eq_ok hok
  refine ⟨?_, htable ▸ rfl, htable ▸ rfl, htable ▸ rfl, fun other => ?_⟩
  · rcases hwritten with ⟨cell, hown, -⟩ | ⟨written, place, hshared, hheap⟩
    · cases hown
    · cases hshared
      exact hheap
  · rw [hothers]
    split
    next he =>
      rw [he, Origin.write, ← hsame, List.set_getElem_self]
    next => rfl

/-- What a read answers is the same unless the cell holds something else. -/
theorem get_of_layout {heap' : Heap} (h : table.Consistent heap) (ho : other.Consistent heap')
    (hs : table.SameLayout other)
    (hread : ∀ origin, (table.origins col)[row]? = some origin →
      origin.read heap' = origin.read heap) (type : ScalarType) :
    other.get heap' type row col = table.get heap type row col := by
  refine h.get_congr ho hs.pending hs.rows hs.cols ?_ type
  rw [column_eq_map, column_eq_map, hs.origins, List.getElem?_map, List.getElem?_map]
  cases hcell : (table.origins col)[row]? with
  | none => rfl
  | some origin => exact congrArg some (hread origin hcell)

end Consistent

end TypedTable.Table
