import TypedTable.Proofs.Catalog
import TypedTable.Proofs.Sheet.Basic

/-!
# Tables represent sheets

Every operation that changes cells does to a table what it does to the sheet that the table
represents. So whatever such operations led to a table, its cells are those of the sheet.
-/

set_option autoImplicit false

namespace TypedTable

namespace Column

def cells (column : Column) : List Cell := column.values.map (Cell.mk column.type)

theorem cells_below {top piece : Column} (h : piece.type = top.type) :
    (top.below piece).cells = top.cells ++ piece.cells := by
  obtain ⟨type, values⟩ := top
  obtain ⟨found, rest⟩ := piece
  obtain rfl : found = type := h
  simp [below, cells]

theorem cells_set {column : Column} {type : ScalarType} (h : type = column.type) (row : Nat)
    (value : type.Carrier) :
    (column.set row type value).cells = column.cells.set row ⟨type, value⟩ := by
  obtain ⟨found, values⟩ := column
  obtain rfl : type = found := h
  simp [set, cells, List.map_set]

theorem length_values_set {column : Column} {type : ScalarType} (h : type = column.type) (row : Nat)
    (value : type.Carrier) : (column.set row type value).values.length = column.values.length := by
  obtain ⟨found, values⟩ := column
  obtain rfl : type = found := h
  simp [set]

theorem type_of_mem_cells {column : Column} {cell : Cell} (hm : cell ∈ column.cells) :
    cell.type = column.type := by
  obtain ⟨value, -, rfl⟩ := List.mem_map.1 hm
  rfl

theorem length_values_ofInput {type : ScalarType} (rows cols : Nat) (order : Order)
    (input : Array type.Carrier) (col : Nat) :
    (ofInput rows cols order input col).values.length = rows := by
  simp [ofInput]

theorem column_of_make {heap : Heap} {type : ScalarType} {rows cols : Nat} {order : Order}
    {storage : Storage type} {dense : Dense type}
    (h : Dense.make heap rows cols order storage = .ok dense)
    (ho : storage.ownership ≠ .borrowed) {col : Nat} (hc : col < cols) :
    (Block.mk type dense).column heap col =
      (ofInput rows cols order (storage.cells {}) col).cells := by
  obtain ⟨rfl, hfilled, hsize⟩ := Dense.make_eq_ok h
  rw [Block.column, cells, ofInput, List.map_map]
  apply List.map_congr_left
  intro row hm
  have hr : row < rows := List.mem_range.1 hm
  have hcell := Storage.getElem?_cells_truncate heap ho (order.offset_lt hr hc)
  rw [Function.comp_apply, Block.cell, Dense.cell?, Dense.cells, Dense.offset, hcell]
  cases order with
  | rowMajor => exact congrArg (Cell.mk type) (Array.getD_eq_getD_getElem? ..).symm
  | columnMajor => exact congrArg (Cell.mk type) (Array.getD_eq_getD_getElem? ..).symm

end Column

namespace Sheet

variable {type : ScalarType} {rows cols : Nat} {order : Order} {input : Array type.Carrier}

@[simp] theorem length_pieces (rows cols : Nat) (order : Order) (input : Array type.Carrier) :
    (pieces rows cols order input).length = cols := by
  simp [pieces]

theorem getElem?_pieces (rows : Nat) (order : Order) (input : Array type.Carrier) {col : Nat}
    (hc : col < cols) :
    (pieces rows cols order input)[col]? = some (Column.ofInput rows cols order input col) := by
  simp [pieces, hc]

theorem values_of_mem_pieces {column : Column} (hm : column ∈ pieces rows cols order input)
    (hr : 0 < rows) : column.values ≠ [] := by
  obtain ⟨col, -, rfl⟩ := List.mem_map.1 hm
  rw [← List.length_pos_iff, Column.length_values_ofInput]
  exact hr

end Sheet

theorem Sheet.of_getElem?_set {sheet : Sheet} {row col other : Nat} {type : ScalarType}
    {value : type.Carrier} {column : Column}
    (hcol : (sheet.set row col type value).columns[other]? = some column) :
    ∃ old, sheet.columns[other]? = some old ∧
      column = if other = col then old.set row type value else old := by
  rw [Sheet.set, List.getElem?_modify] at hcol
  obtain ⟨old, hold, rfl⟩ := Option.map_eq_some_iff.1 hcol
  refine ⟨old, hold, ?_⟩
  by_cases he : other = col
  · rw [if_pos he, if_pos he.symm]
  · rw [if_neg he, if_neg (Ne.symm he)]

/-- The cells of the table are those of the sheet, and the table shares them with nobody. -/
structure Table.Represents (heap : Heap) (table : Table) (sheet : Sheet) : Prop where
  consistent : table.Consistent heap
  owned : ∀ block ∈ table.arena.blocks, block.ownership ≠ .borrowed
  rows : table.rows = sheet.rows + table.lackedRows
  cols : table.cols = sheet.columns.length
  incoming : sheet.incoming.length = table.nextRowColumn
  columns : ∀ (col : Nat) (column : Column), sheet.columns[col]? = some column →
    table.column heap col = column.cells ++ (sheet.incoming[col]?).elim [] Column.cells
  sameType : ∀ (col : Nat) (column piece : Column), sheet.columns[col]? = some column →
    sheet.incoming[col]? = some piece → piece.type = column.type
  values : ∀ column ∈ sheet.columns, column.values ≠ []

namespace Table.Represents

variable {heap : Heap} {table other later : Table} {sheet sheet' : Sheet}

theorem empty (heap : Heap) : Table.empty.Represents heap {} where
  consistent := consistent_empty heap
  owned := by simp [Table.empty]
  rows := rfl
  cols := rfl
  incoming := rfl
  columns := by simp
  sameType := by simp
  values := by simp

theorem incoming_eq_nil (h : table.Represents heap sheet) (hp : table.pending = none) :
    sheet.incoming = [] := by
  have hlength := h.incoming
  rw [nextRowColumn, hp] at hlength
  exact List.eq_nil_of_length_eq_zero hlength

/-- A column of a complete table is the one of the sheet. -/
theorem column_eq (h : table.Represents heap sheet) (hp : table.pending = none) {col : Nat}
    {column : Column} (hcol : sheet.columns[col]? = some column) :
    table.column heap col = column.cells := by
  rw [h.columns col column hcol, h.incoming_eq_nil hp]
  exact List.append_nil _

/-- The type of a column is that of the blocks of its chain. -/
theorem type_eq (h : table.Represents heap sheet) {entry : Interval × Nat}
    (hm : entry ∈ table.chains.entries) {col : Nat} (hc : col ∈ entry.1) {column : Column}
    (hcol : sheet.columns[col]? = some column) {type : ScalarType}
    (ht : ∀ placement ∈ table.arena.chain entry.2, ∀ block,
      table.arena.blocks[placement.block]? = some block → block.type = type) :
    column.type = type := by
  obtain ⟨value, hvalue⟩ :=
    List.exists_mem_of_ne_nil _ (h.values column (List.mem_of_getElem? hcol))
  have hcell : (⟨column.type, value⟩ : Cell) ∈ table.column heap col := by
    rw [h.columns col column hcol]
    exact List.mem_append_left _ (List.mem_map_of_mem hvalue)
  rw [h.consistent.column_of_mem hm hc] at hcell
  obtain ⟨placement, hp, hcell⟩ := List.mem_flatMap.1 hcell
  rw [Arena.placedColumn] at hcell
  cases hb : table.arena.blocks[placement.block]? with
  | none =>
    rw [hb] at hcell
    cases hcell
  | some block =>
    rw [hb] at hcell
    obtain ⟨row, -, hrow⟩ := List.mem_map.1 hcell
    exact (congrArg Cell.type hrow).symm.trans (ht placement hp block hb)

variable {type : ScalarType} {rows cols : Nat} {order : Order} {storage : Storage type}

theorem appendColumns (h : table.Represents heap sheet) (ho : storage.ownership ≠ .borrowed)
    (hok : table.appendColumns heap rows cols order storage = .ok later) :
    later.Represents heap
      (sheet.appendColumns rows (Sheet.pieces rows cols order (storage.cells {}))) := by
  have hlater := h.consistent.appendColumns hok
  obtain ⟨dense, span, hp, hr, hl, hu, hdense, rfl⟩ := h.consistent.appendColumns_eq_ok hok
  obtain ⟨-, hfilled, -⟩ := Dense.make_eq_ok hdense
  obtain ⟨hrows, hcols, howned⟩ := Dense.shape_of_make hdense
  have hin := h.incoming_eq_nil hp
  constructor
  case consistent => exact hlater
  case owned =>
    intro block hm
    rcases Array.mem_push.1 hm with hm | rfl
    · exact h.owned block hm
    · exact fun hb => ho (howned.symm.trans hb)
  case rows =>
    have hlacked : (table.addColumns ⟨type, dense⟩
        ⟨table.chains.entries ++ [(span, table.arena.nodes.size)]⟩).lackedRows = 0 := by
      rw [lackedRows, addColumns, hp]
      rfl
    rw [hlacked]
    exact hrows
  case cols =>
    rw [Sheet.appendColumns, List.length_append, Sheet.length_pieces, ← h.cols, ← hcols]
    rfl
  case incoming => exact h.incoming
  case columns =>
    intro col column hcol
    rw [Sheet.appendColumns] at hcol ⊢
    dsimp only at hcol ⊢
    have hlt := (List.getElem?_eq_some_iff.1 hcol).1
    rw [List.length_append, Sheet.length_pieces, ← h.cols] at hlt
    rw [hin, h.consistent.column_addColumns hl (by rw [Block.cols, hcols]; exact hlt) hlater]
    by_cases hold : col < table.cols
    · rw [List.getElem?_append_left (h.cols ▸ hold)] at hcol
      rw [if_pos hold, h.column_eq hp hcol]
      exact (List.append_nil _).symm
    · have hnew : col - table.cols < cols := by omega
      rw [List.getElem?_append_right (h.cols ▸ Nat.le_of_not_lt hold), ← h.cols,
        Sheet.getElem?_pieces rows order _ hnew] at hcol
      obtain rfl := Option.some.inj hcol
      rw [if_neg hold, Column.column_of_make hdense ho hnew]
      exact (List.append_nil _).symm
  case sameType =>
    intro col column piece _ hpiece
    rw [Sheet.appendColumns, hin] at hpiece
    cases hpiece
  case values =>
    intro column hm
    rcases List.mem_append.1 hm with hm | hm
    · exact h.values column hm
    · exact Sheet.values_of_mem_pieces hm (hrows ▸ hfilled.rows_pos)

section Rows

variable {span : Interval} {tails : List Nat} {dense : Dense type}

/-- The incoming pieces of the columns that a block of rows covers are those of its input. -/
theorem getElem?_incoming (h : table.Represents heap sheet) (hl : span.lower = table.nextRowColumn)
    (hw : span.upper + 1 = span.lower + cols) (input : Array type.Carrier) (col : Nat) :
    (sheet.incoming ++ Sheet.pieces rows cols order input)[col]? =
      if span.contains col then some (Column.ofInput rows cols order input (col - span.lower))
      else sheet.incoming[col]? := by
  have hlength : sheet.incoming.length = span.lower := h.incoming.trans hl.symm
  by_cases hleft : col < span.lower
  · have hout : ¬ span.contains col = true := by
      rw [Interval.contains_iff, Interval.mem_def]
      omega
    rw [if_neg hout, List.getElem?_append_left (hlength ▸ hleft)]
  · rw [List.getElem?_append_right (by omega), hlength]
    by_cases hright : col ≤ span.upper
    · have hin : span.contains col = true := Interval.contains_iff.2 ⟨by omega, hright⟩
      rw [if_pos hin, Sheet.getElem?_pieces rows order input (by omega)]
    · have hout : ¬ span.contains col = true := by
        rw [Interval.contains_iff, Interval.mem_def]
        omega
      rw [if_neg hout, List.getElem?_eq_none (by rw [Sheet.length_pieces]; omega),
        List.getElem?_eq_none (by omega)]

theorem column_linkRows (h : table.Represents heap sheet) (ho : storage.ownership ≠ .borrowed)
    (hl : span.lower = table.nextRowColumn) (hw : span.upper + 1 = span.lower + cols)
    (hin : ∀ entry ∈ table.chains.entries, entry.1.meets span = true →
      span.lower ≤ entry.1.lower ∧ entry.1.upper ≤ span.upper)
    (ht : ((table.chains.range span).map (·.2)).map table.arena.tail? = tails.map some)
    (hdense : Dense.make heap rows cols order storage = .ok dense) {col : Nat} {column : Column}
    (hcol : sheet.columns[col]? = some column) :
    (table.linkRows span ⟨type, dense⟩ tails).column heap col =
      column.cells ++
        ((sheet.incoming ++ Sheet.pieces rows cols order (storage.cells {}))[col]?).elim []
          Column.cells := by
  have hlt : col < table.cols := h.cols ▸ (List.getElem?_eq_some_iff.1 hcol).1
  have hlength : sheet.incoming.length = span.lower := h.incoming.trans hl.symm
  rw [h.consistent.column_linkRows hlt hin ht, h.columns col column hcol, List.append_assoc,
    h.getElem?_incoming hl hw]
  congr 1
  by_cases hspan : span.contains col = true
  · obtain ⟨hlower, hupper⟩ := Interval.contains_iff.1 hspan
    rw [if_pos hspan, if_pos hspan, Column.column_of_make hdense ho (by omega),
      List.getElem?_eq_none (by omega)]
    rfl
  · rw [if_neg hspan, if_neg hspan, List.append_nil]

theorem type_incoming (h : table.Represents heap sheet) (hl : span.lower = table.nextRowColumn)
    (hw : span.upper + 1 = span.lower + cols)
    (hin : ∀ entry ∈ table.chains.entries, entry.1.meets span = true →
      ∀ placement ∈ table.arena.chain entry.2, ∀ block,
        table.arena.blocks[placement.block]? = some block → block.type = type)
    (input : Array type.Carrier) {col : Nat} {column piece : Column}
    (hcol : sheet.columns[col]? = some column)
    (hpiece : (sheet.incoming ++ Sheet.pieces rows cols order input)[col]? = some piece) :
    piece.type = column.type := by
  rw [h.getElem?_incoming hl hw] at hpiece
  by_cases hspan : span.contains col = true
  · rw [if_pos hspan] at hpiece
    obtain rfl := Option.some.inj hpiece
    have hlt : col < table.cols := h.cols ▸ (List.getElem?_eq_some_iff.1 hcol).1
    obtain ⟨entry, hm, hmem⟩ := h.consistent.exists_entry hlt
    have hmeets : entry.1.meets span = true := by
      obtain ⟨hlower, hupper⟩ := Interval.contains_iff.1 hspan
      rw [Interval.mem_def] at hmem
      rw [Interval.meets_iff]
      omega
    exact (h.type_eq hm hmem hcol (hin entry hm hmeets)).symm
  · rw [if_neg hspan] at hpiece
    exact h.sameType col column piece hcol hpiece

theorem complete_rows (h : table.Represents heap sheet) (hlater : later.Consistent heap)
    (ho : ∀ block ∈ later.arena.blocks, block.ownership ≠ .borrowed) (hp : later.pending = none)
    (hr : later.rows = sheet.rows + rows) (hc : later.cols = table.cols) {incoming : List Column}
    (hlength : incoming.length = table.cols)
    (hcolumn : ∀ col column, sheet.columns[col]? = some column →
      later.column heap col = column.cells ++ (incoming[col]?).elim [] Column.cells)
    (htype : ∀ (col : Nat) (column piece : Column), sheet.columns[col]? = some column →
      incoming[col]? = some piece → piece.type = column.type) :
    later.Represents heap
      { rows := sheet.rows + rows
        columns := List.zipWith Column.below sheet.columns incoming } := by
  constructor
  case consistent => exact hlater
  case owned => exact ho
  case rows =>
    rw [lackedRows, hp]
    exact hr
  case cols =>
    rw [List.length_zipWith, hlength, ← h.cols, hc, Nat.min_self]
  case incoming =>
    rw [nextRowColumn, hp]
    rfl
  case columns =>
    intro col column hcol
    obtain ⟨top, piece, htop, hpiece, rfl⟩ := List.getElem?_zipWith_eq_some.1 hcol
    rw [hcolumn col top htop, hpiece, Column.cells_below (htype col top piece htop hpiece)]
    exact (List.append_nil _).symm
  case sameType =>
    intro col column piece _ hpiece
    cases hpiece
  case values =>
    intro column hm
    obtain ⟨col, hcol⟩ := List.mem_iff_getElem?.1 hm
    obtain ⟨top, piece, htop, -, rfl⟩ := List.getElem?_zipWith_eq_some.1 hcol
    intro hnil
    exact h.values top (List.mem_of_getElem? htop) (List.append_eq_nil_iff.1 hnil).1

end Rows

theorem appendRows (h : table.Represents heap sheet) (ho : storage.ownership ≠ .borrowed)
    (hok : table.appendRows heap rows cols order storage = .ok later) :
    later.Represents heap
      (sheet.appendRows rows (Sheet.pieces rows cols order (storage.cells {}))) := by
  by_cases hempty : sheet.columns.isEmpty = true
  · have hzero : table.cols = 0 := by rw [h.cols, List.isEmpty_iff.1 hempty, List.length_nil]
    rw [Table.appendRows, if_pos (by simp [isEmpty, hzero])] at hok
    rw [Sheet.appendRows, if_pos hempty]
    exact h.appendColumns ho hok
  have hpos : 0 < table.cols := by
    rw [h.cols, List.length_pos_iff]
    simpa using hempty
  have hlater := h.consistent.appendRows hok
  obtain ⟨dense, span, tails, hr, hl, hw, hu, hin, ht, hdense, rfl⟩ :=
    h.consistent.appendRows_eq_ok hpos hok
  obtain ⟨hrows, hcols, howned⟩ := Dense.shape_of_make hdense
  have hcolumn := fun (col : Nat) (column : Column) (hcol : sheet.columns[col]? = some column) =>
    h.column_linkRows ho hl hw (fun entry hm hmeets => (hin entry hm hmeets).1) ht hdense hcol
  have htype : ∀ (col : Nat) (column piece : Column), sheet.columns[col]? = some column →
      (sheet.incoming ++ Sheet.pieces rows cols order (storage.cells {}))[col]? = some piece →
      piece.type = column.type := fun col column piece hcol hpiece =>
    h.type_incoming hl hw (fun entry hm hmeets => (hin entry hm hmeets).2) (storage.cells {}) hcol
      hpiece
  have hsum : (table.linkRows span ⟨type, dense⟩ tails).rows + table.lackedRows =
      table.rows + dense.rows :=
    Consistent.rows_linkRows span tails fun pending hp => hrows.trans (hr pending hp)
  have hlacked := h.rows
  have hincoming : (sheet.incoming ++ Sheet.pieces rows cols order (storage.cells {})).length =
      span.upper + 1 := by
    rw [List.length_append, Sheet.length_pieces, h.incoming, hw, hl]
  have howners : ∀ block ∈ (table.linkRows span ⟨type, dense⟩ tails).arena.blocks,
      block.ownership ≠ .borrowed := by
    intro block hm
    rw [Consistent.blocks_linkRows] at hm
    rcases Array.mem_push.1 hm with hm | rfl
    · exact h.owned block hm
    · exact fun hb => ho (howned.symm.trans hb)
  rw [Sheet.appendRows, if_neg hempty, hincoming, ← h.cols]
  -- either other columns still wait for these rows, or the block is the last one of its group
  by_cases hlast : span.upper + 1 < table.cols
  · rw [if_pos hlast]
    have hpending : (table.linkRows span ⟨type, dense⟩ tails).pending =
        some ⟨span.upper + 1, dense.rows⟩ := if_pos hlast
    constructor
    case consistent => exact hlater
    case owned => exact howners
    case rows =>
      have hlater' : (table.linkRows span ⟨type, dense⟩ tails).lackedRows = dense.rows := by
        rw [lackedRows, hpending]
        rfl
      dsimp only
      omega
    case cols => exact h.cols
    case incoming =>
      rw [nextRowColumn, hpending]
      exact hincoming
    case columns => exact hcolumn
    case sameType => exact htype
    case values => exact h.values
  · rw [if_neg hlast]
    have hpending : (table.linkRows span ⟨type, dense⟩ tails).pending = none := if_neg hlast
    have hlater' : (table.linkRows span ⟨type, dense⟩ tails).rows = sheet.rows + rows := by omega
    exact h.complete_rows hlater howners hpending hlater' rfl (by omega) hcolumn htype

theorem rows_eq (h : table.Represents heap sheet) (hp : table.pending = none) :
    table.rows = sheet.rows := by
  rw [h.rows, lackedRows, hp]
  rfl

/-- A complete table without columns stands for the empty sheet. -/
theorem eq_empty (h : table.Represents heap sheet) (hp : table.pending = none)
    (hc : table.cols = 0) : sheet = {} := by
  have hrows : sheet.rows = 0 := (h.rows_eq hp).symm.trans (h.consistent.noRows hc)
  have hcolumns : sheet.columns = [] := List.eq_nil_of_length_eq_zero (h.cols.symm.trans hc)
  have hin := h.incoming_eq_nil hp
  cases sheet
  simp_all

theorem merged (h : table.Represents heap sheet) (ho : other.Represents heap sheet')
    (hp : table.pending = none) (hpo : other.pending = none) (hc : 0 < other.cols)
    (hr : 0 < table.cols → table.rows = other.rows) :
    (merged table other).Represents heap (sheet.join sheet') := by
  have hmerged := h.consistent.merged_consistent ho.consistent hp hpo hc hr
  have hpending : (Table.merged table other).pending = none := hp
  constructor
  case consistent => exact hmerged
  case owned =>
    intro block hm
    rcases Array.mem_append.1 hm with hm | hm
    · exact h.owned block hm
    · exact ho.owned block hm
  case rows =>
    have hrows : (Table.merged table other).rows = other.rows := rfl
    rw [hrows, lackedRows, hpending, ho.rows_eq hpo, Sheet.join]
    by_cases hempty : sheet.columns.isEmpty = true
    · simp [hempty]
    · have hpos : 0 < table.cols := by
        rw [h.cols, List.length_pos_iff]
        simpa using hempty
      simp [hempty, ← h.rows_eq hp, ← ho.rows_eq hpo, hr hpos]
  case cols =>
    have hcols : (Table.merged table other).cols = table.cols + other.cols := rfl
    rw [hcols, h.cols, ho.cols, Sheet.join, List.length_append]
  case incoming =>
    rw [nextRowColumn, hpending]
    rfl
  case columns =>
    intro col column hcol
    rw [Sheet.join] at hcol ⊢
    dsimp only at hcol ⊢
    have hlt := (List.getElem?_eq_some_iff.1 hcol).1
    rw [List.length_append, ← h.cols, ← ho.cols] at hlt
    rw [h.consistent.column_merged ho.consistent hmerged hlt]
    by_cases hold : col < table.cols
    · rw [List.getElem?_append_left (h.cols ▸ hold)] at hcol
      rw [if_pos hold, h.column_eq hp hcol]
      exact (List.append_nil _).symm
    · rw [List.getElem?_append_right (h.cols ▸ Nat.le_of_not_lt hold), ← h.cols] at hcol
      rw [if_neg hold, ho.column_eq hpo hcol]
      exact (List.append_nil _).symm
  case sameType =>
    intro col column piece _ hpiece
    cases hpiece
  case values =>
    intro column hm
    rcases List.mem_append.1 hm with hm | hm
    · exact h.values column hm
    · exact ho.values column hm

theorem merge (h : table.Represents heap sheet) (ho : other.Represents heap sheet')
    {result : Table × Table} (hok : table.merge other = .ok result) :
    result.1.Represents heap (sheet.join sheet') ∧ result.2.Represents heap {} := by
  rcases h.consistent.merge_cases ho.consistent with
      ⟨fault, -, hmerge⟩ | ⟨hp, hpo, ⟨hc, hmerge⟩ | ⟨hc, hr, hmerge⟩⟩
  · rw [hmerge] at hok
    cases hok
  · rw [hmerge] at hok
    cases hok
    obtain rfl := ho.eq_empty hpo hc
    have hjoin : sheet.join {} = sheet := by
      have hin := h.incoming_eq_nil hp
      by_cases hempty : sheet.columns = []
      · obtain rfl := h.eq_empty hp (by rw [h.cols, hempty, List.length_nil])
        rfl
      · cases sheet
        simp_all [Sheet.join]
    rw [hjoin]
    exact ⟨h, ho⟩
  · rw [hmerge] at hok
    cases hok
    exact ⟨h.merged ho hp hpo hc hr, empty heap⟩

/-- A write to the table is a write to the sheet, and none to the heap. -/
theorem set (h : table.Represents heap sheet) {type : ScalarType} {row col : Nat}
    {value : type.Carrier} {result : Heap × Table}
    (hok : table.set heap type row col value = .ok result) :
    result.1 = heap ∧ result.2.Represents heap (sheet.set row col type value) := by
  obtain ⟨hheap, hcolumns⟩ := h.consistent.column_set hok h.owned
  obtain ⟨-, hlater⟩ := h.consistent.set hok
  obtain ⟨hp, -, -, place, entry, above, offset, below, dense, hl, -, htable⟩ :=
    h.consistent.set_eq_ok hok
  obtain ⟨later, written⟩ := result
  dsimp only at hheap hcolumns hlater htable ⊢
  subst hheap htable
  have howned := h.owned _ (Array.mem_of_getElem? hl.block_eq)
  have htype : ∀ column, sheet.columns[col]? = some column → type = column.type := by
    intro column hcol
    have hcell := List.mem_of_getElem? (h.consistent.getElem?_column hl)
    rw [h.column_eq hp hcol] at hcell
    exact Column.type_of_mem_cells hcell
  have hin : (sheet.set row col type value).incoming = [] := h.incoming_eq_nil hp
  refine ⟨rfl, ?_⟩
  constructor
  case consistent => exact hlater
  case owned =>
    intro block hm
    rcases Array.mem_or_eq_of_mem_setIfInBounds hm with hm | rfl
    · exact h.owned block hm
    · exact fun hb => howned ((Storage.ownership_write later _ value dense.storage).symm.trans hb)
  case rows => exact h.rows
  case cols =>
    rw [Sheet.set, List.length_modify]
    exact h.cols
  case incoming => exact h.incoming
  case columns =>
    intro other column hcol
    obtain ⟨old, hold, rfl⟩ := Sheet.of_getElem?_set hcol
    have hlt : other < table.cols := h.cols ▸ (List.getElem?_eq_some_iff.1 hold).1
    rw [hcolumns other hlt, hin]
    by_cases he : other = col
    · subst he
      rw [if_pos rfl, if_pos rfl, h.column_eq hp hold, Column.cells_set (htype old hold)]
      exact (List.append_nil _).symm
    · rw [if_neg he, if_neg he, h.column_eq hp hold]
      exact (List.append_nil _).symm
  case sameType =>
    intro other column piece _ hpiece
    rw [hin] at hpiece
    cases hpiece
  case values =>
    intro column hm
    obtain ⟨other, hcol⟩ := List.mem_iff_getElem?.1 hm
    obtain ⟨old, hold, rfl⟩ := Sheet.of_getElem?_set hcol
    have hvalues := h.values old (List.mem_of_getElem? hold)
    by_cases he : other = col
    · rw [if_pos he, ← List.length_pos_iff, Column.length_values_set (htype old (he ▸ hold)),
        List.length_pos_iff]
      exact hvalues
    · rw [if_neg he]
      exact hvalues

end Table.Represents

end TypedTable
