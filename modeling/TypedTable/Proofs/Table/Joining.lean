import TypedTable.Proofs.Table.Slicing

/-!
# What a merge moves

The columns of a merged table are those of its two parts, side by side: each keeps its type, the
number of its blocks and its cells. The labels of the part that keeps its place come first, and a
moved column whose label is one of them has none.
-/

set_option autoImplicit false

namespace TypedTable

namespace Table

/-- The questions about column `col'` of `later` have the answers that they have about column `col`
of `table`. -/
structure SameColumn (heap : Heap) (table later : Table) (col col' : Nat) : Prop where
  columnType : later.columnType col' = table.columnType col
  chainLength : later.chainLength col' = table.chainLength col
  get (type : ScalarType) (row : Nat) :
    later.get heap type row col' = table.get heap type row col

/-- The columns of `other` stand behind those of `table`, which have kept their labels. -/
structure Joined (heap : Heap) (table other later : Table) : Prop where
  rows : later.rows = other.rows
  cols : later.cols = table.cols + other.cols
  pending : later.pending = none
  selections : later.selections = table.selections
  kept : ∀ col < table.cols, SameColumn heap table later col col
  moved : ∀ col < other.cols, SameColumn heap other later col (col + table.cols)
  keptLabel : ∀ col < table.cols, later.columnLabel col = table.columnLabel col
  movedLabel : ∀ col name, other.columnLabel col = .ok name →
    ((∃ col', table.labeledColumn name = .ok col') →
      later.columnLabel (col + table.cols) = .ok "") ∧
    ((¬ ∃ col', table.labeledColumn name = .ok col') →
      later.columnLabel (col + table.cols) = .ok name)
  /-- A name stands for a column of `table` first. -/
  labeledColumn : ∀ name, later.labeledColumn name =
    match table.labeledColumn name with
    | .ok col => .ok col
    | .error _ => (other.labeledColumn name).map (· + table.cols)

variable {heap : Heap} {table other later : Table} {col col' : Nat}

namespace Consistent

theorem chainLength_eq (h : table.Consistent heap) {entry : Interval × Nat}
    (hm : entry ∈ table.chains.entries) (hc : col ∈ entry.1) :
    table.chainLength col = .ok (table.arena.chain entry.2).length := by
  have hlt : col < table.cols := Nat.lt_of_le_of_lt hc.2 (h.lt_cols hm)
  rw [chainLength, checkCol, require_eq_ok (u := ()) |>.2 hlt, ok_bind, head,
    RangeMap.find?_of_mem h.sorted hm hc]
  rfl

theorem get_of_rows_le (hp : table.pending = none) {row : Nat} (hr : table.rows ≤ row)
    (type : ScalarType) :
    table.get heap type row col = .error (.indexOutOfBounds row .rows table.rows) := by
  rw [get, locate, checkCell, checkComplete_eq_ok (u := ()) |>.2 hp, ok_bind, checkRow, require,
    if_neg (Nat.not_lt.2 hr)]
  rfl

theorem get_of_column (h : table.Consistent heap) (hl : later.Consistent heap)
    (hp : table.pending = none) (hpl : later.pending = none) (hr : later.rows = table.rows)
    (hc : col < table.cols) (hc' : col' < later.cols)
    (hcolumn : later.column heap col' = table.column heap col) (type : ScalarType) (row : Nat) :
    later.get heap type row col' = table.get heap type row col := by
  rcases Nat.lt_or_ge row table.rows with hlt | hge
  · exact h.get_of_cell hl hp hpl hlt (hr ▸ hlt) hc hc' (congrArg (·[row]?) hcolumn) type
  · rw [get_of_rows_le hp hge, get_of_rows_le hpl (hr ▸ hge), hr]

theorem sameColumn (h : table.Consistent heap) (hl : later.Consistent heap)
    (hp : table.pending = none) (hpl : later.pending = none) (hr : later.rows = table.rows)
    {entry entry' : Interval × Nat} (hm : entry ∈ table.chains.entries) (hc : col ∈ entry.1)
    (hm' : entry' ∈ later.chains.entries) (hc' : col' ∈ entry'.1) {move : Placement → Placement}
    (hchain : later.arena.chain entry'.2 = (table.arena.chain entry.2).map move)
    (hblock : ∀ placement ∈ table.arena.chain entry.2,
      later.arena.blocks[(move placement).block]? = table.arena.blocks[placement.block]?)
    (hcolumn : later.column heap col' = table.column heap col) :
    SameColumn heap table later col col' where
  columnType := by
    obtain ⟨first, hfirst, -⟩ := h.placement?_head hm
    obtain ⟨⟨shared, hplaced⟩, -⟩ := h.supports entry hm
    obtain ⟨block, hb, -⟩ := hplaced first hfirst
    obtain ⟨type, htype, htypes⟩ := h.chainType_eq hm
    obtain ⟨type', htype', htypes'⟩ := hl.chainType_eq hm'
    have hmoved : move first ∈ later.arena.chain entry'.2 :=
      hchain ▸ List.mem_map_of_mem hfirst
    rw [h.columnType_eq hm hc, hl.columnType_eq hm' hc', htype, htype',
      ← htypes first hfirst block hb,
      ← htypes' (move first) hmoved block ((hblock first hfirst).trans hb)]
  chainLength := by
    rw [h.chainLength_eq hm hc, hl.chainLength_eq hm' hc', hchain, List.length_map]
  get := h.get_of_column hl hp hpl hr (Nat.lt_of_le_of_lt hc.2 (h.lt_cols hm))
    (Nat.lt_of_le_of_lt hc'.2 (hl.lt_cols hm')) hcolumn

end Consistent

namespace Consistent

theorem columnLabel_eq (h : table.Consistent heap) (hc : col < table.cols) :
    ∃ label, table.labels.names[col]? = some label ∧
      table.columnLabel col = .ok (label.getD "") := by
  have hlt : col < table.labels.names.length := h.labels.length ▸ hc
  refine ⟨_, List.getElem?_eq_getElem hlt, ?_⟩
  rw [columnLabel, checkCol, require_eq_ok (u := ()) |>.2 hc, ok_bind,
    List.getElem?_eq_getElem hlt]
  rfl

/-- The column under a name is the one that has it as its label. -/
theorem labeledColumn_eq_ok_iff (h : table.Consistent heap) {name : String} :
    table.labeledColumn name = .ok col ↔ table.labels.names[col]? = some (some name) := by
  rw [← h.labels.find?_iff, labeledColumn]
  cases table.labels.index.find? name <;> simp

theorem exists_labeledColumn_iff (h : table.Consistent heap) {name : String} :
    (∃ col, table.labeledColumn name = .ok col) ↔ some name ∈ table.labels.names := by
  rw [List.mem_iff_getElem?]
  exact exists_congr fun col => h.labeledColumn_eq_ok_iff

section Merged

variable (h : table.Consistent heap) (ho : other.Consistent heap)

include h ho

theorem keptLabel_merged (hn : (merged table other).Consistent heap) (hc : col < table.cols) :
    (merged table other).columnLabel col = table.columnLabel col := by
  obtain ⟨label, hlabel, hsame⟩ := h.columnLabel_eq hc
  obtain ⟨label', hlabel', hsame'⟩ := hn.columnLabel_eq (Nat.lt_add_right other.cols hc)
  have hleft : (merged table other).labels.names[col]? = table.labels.names[col]? := by
    rw [merged, h.labels.names_join ho.labels, List.getElem?_append_left (h.labels.length ▸ hc)]
  obtain rfl := Option.some.inj (hlabel.symm.trans (hleft.symm.trans hlabel'))
  rw [hsame, hsame']

theorem labeledColumn_merged (name : String) :
    (merged table other).labeledColumn name =
      match table.labeledColumn name with
      | .ok col => .ok col
      | .error _ => (other.labeledColumn name).map (· + table.cols) := by
  rw [labeledColumn, merged, h.labels.find?_join ho.labels, labeledColumn, labeledColumn]
  cases table.labels.index.find? name with
  | some col => rfl
  | none => cases other.labels.index.find? name <;> rfl

theorem movedLabel_merged (hn : (merged table other).Consistent heap) {name : String}
    (hname : other.columnLabel col = .ok name) :
    ((∃ col', table.labeledColumn name = .ok col') →
      (merged table other).columnLabel (col + table.cols) = .ok "") ∧
    ((¬ ∃ col', table.labeledColumn name = .ok col') →
      (merged table other).columnLabel (col + table.cols) = .ok name) := by
  obtain ⟨u, hcol, -⟩ := bind_eq_ok_iff.1 hname
  have hc : col < other.cols := require_eq_ok.1 hcol
  have hc' : col + table.cols < (merged table other).cols := by
    show col + table.cols < table.cols + other.cols
    omega
  obtain ⟨label, hlabel, hsame⟩ := ho.columnLabel_eq hc
  obtain ⟨label', hlabel', hsame'⟩ := hn.columnLabel_eq hc'
  have hright : (merged table other).labels.names[col + table.cols]? =
      (Labels.movedLabels table.labels.names other.labels.names)[col]? := by
    rw [merged, h.labels.names_join ho.labels,
      List.getElem?_append_right (by rw [h.labels.length]; omega), h.labels.length,
      Nat.add_sub_cancel]
  rw [hright, Labels.getElem?_movedLabels, hlabel, Option.map_some] at hlabel'
  obtain rfl := Option.some.inj hlabel'
  obtain rfl := Except.ok.inj (hsame.symm.trans hname)
  rw [hsame', h.exists_labeledColumn_iff]
  cases label with
  | none => exact ⟨fun _ => rfl, fun _ => rfl⟩
  | some name =>
    refine ⟨fun hm => ?_, fun hm => ?_⟩
    · rw [if_pos ⟨rfl, hm⟩]
      rfl
    · rw [if_neg fun hall => hm hall.2]

theorem joined_merged (hp : table.pending = none) (hpo : other.pending = none)
    (hc : 0 < other.cols) (hr : 0 < table.cols → table.rows = other.rows) :
    Joined heap table other (merged table other) := by
  have hn := h.merged_consistent ho hp hpo hc hr
  obtain ⟨-, hold, hmoved⟩ :=
    Arena.Apart.append table.arena other.arena table.cols h.apart ho.apart
  constructor
  case rows => rfl
  case cols => rfl
  case pending => exact hp
  case selections => rfl
  case kept =>
    intro col hcol
    obtain ⟨entry, hm, hin⟩ := h.exists_entry hcol
    have hcolumn := h.column_merged ho hn (Nat.lt_add_right other.cols hcol)
    rw [if_pos hcol] at hcolumn
    refine h.sameColumn hn hp hp (hr (Nat.zero_lt_of_lt hcol)).symm hm hin
      (List.mem_append_left _ hm) hin ((hold entry.2 (mem_heads hm)).trans (List.map_id _).symm)
      (fun placement hplacement => ?_) hcolumn
    exact Array.getElem?_append_left (h.block_lt hm hplacement)
  case moved =>
    intro col hcol
    obtain ⟨entry, hm, hin⟩ := ho.exists_entry hcol
    have hcolumn := h.column_merged ho hn (show col + table.cols < table.cols + other.cols by omega)
    rw [if_neg (by omega), Nat.add_sub_cancel] at hcolumn
    have hmem : (entry.1.shift table.cols, entry.2 + table.arena.nodes.size) ∈
        (merged table other).chains.entries :=
      List.mem_append_right _ (List.mem_map.2 ⟨entry, hm, rfl⟩)
    have hshift : col + table.cols ∈ entry.1.shift table.cols :=
      ⟨Nat.add_le_add_right hin.1 _, Nat.add_le_add_right hin.2 _⟩
    exact ho.sameColumn hn hpo hp rfl hm hin hmem hshift (hmoved entry.2 (mem_heads hm))
      (fun placement _ => Arena.blocks_append_right _ _ _ _) hcolumn
  case keptLabel => exact fun col hcol => h.keptLabel_merged ho hn hcol
  case movedLabel => exact fun col name hname => h.movedLabel_merged ho hn hname
  case labeledColumn => exact h.labeledColumn_merged ho

/-- A merge is carried out exactly when no rows are pending and the heights do not differ. -/
theorem exists_merge_iff :
    (∃ result, table.merge other = .ok result) ↔
      table.pending = none ∧ other.pending = none ∧
        (other.cols = 0 ∨ table.cols = 0 ∨ table.rows = other.rows) := by
  constructor
  · rintro ⟨result, hok⟩
    rcases h.merge_cases ho with
        ⟨fault, -, hmerge⟩ | ⟨hp, hpo, ⟨hcols, -⟩ | ⟨-, hrows, -⟩⟩
    · rw [hmerge] at hok
      cases hok
    · exact ⟨hp, hpo, .inl hcols⟩
    · exact ⟨hp, hpo, .inr ((Nat.eq_zero_or_pos _).imp_right hrows)⟩
  · rintro ⟨hp, hpo, hfits⟩
    rw [h.merge_of_complete ho hp hpo]
    by_cases hc : other.cols = 0
    · exact ⟨_, if_pos hc⟩
    · have hr : 0 < table.cols → table.rows = other.rows := fun hpos =>
        (hfits.resolve_left hc).resolve_left (Nat.ne_of_gt hpos)
      exact ⟨_, by rw [if_neg hc, if_pos hr]⟩

end Merged

end Consistent

end Table

namespace Catalog

variable {catalog : Catalog} {number other : Nat}

/-- A merge is carried out exactly when no rows of the two tables are pending and one of them has no
columns or both have as many rows. Then the table has its own columns and behind them those of the
other one, each with its type, its number of blocks and its cells, and a moved column keeps a label
that is not taken. The other table is empty afterwards; if it was before, nothing changes. -/
theorem Reachable.merges_exactly (h : catalog.Reachable) (hne : number ≠ other) :
    ((∃ status, (catalog.perform (.merge number other)).2 = .ok status) ↔
      (catalog.table number).pending = none ∧ (catalog.table other).pending = none ∧
        ((catalog.table other).cols = 0 ∨ (catalog.table number).cols = 0 ∨
          (catalog.table number).rows = (catalog.table other).rows)) ∧
    ∀ later status, catalog.perform (.merge number other) = (later, .ok status) →
      later.heap = catalog.heap ∧
      (∀ third, third ≠ number → third ≠ other → later.table third = catalog.table third) ∧
      ((catalog.table other).cols = 0 → ∀ third, later.table third = catalog.table third) ∧
      (0 < (catalog.table other).cols → later.table other = Table.empty ∧
        (catalog.table number).Joined catalog.heap (catalog.table other) (later.table number)) := by
  have hc := h.consistent number
  have ho := h.consistent other
  refine ⟨?_, fun later status hok => ?_⟩
  · rw [← hc.exists_merge_iff ho]
    unfold Catalog.perform
    dsimp only
    cases (catalog.table number).merge (catalog.table other) <;> simp
  · unfold Catalog.perform at hok
    dsimp only at hok
    rcases hc.merge_cases ho with
        ⟨fault, -, hmerge⟩ | ⟨hp, hpo, ⟨hcols, hmerge⟩ | ⟨hcols, hrows, hmerge⟩⟩
    · rw [hmerge] at hok
      cases (Prod.mk.inj hok).2
    · rw [hmerge] at hok
      obtain ⟨rfl, -⟩ := Prod.mk.inj hok
      have hsame (third : Nat) : ((catalog.put number (catalog.table number)).put other
          (catalog.table other)).table third = catalog.table third := by
        rw [table_put]
        split
        next he => rw [he]
        next => exact table_put_same catalog number third
      exact ⟨rfl, fun third _ _ => hsame third, fun _ => hsame,
        fun hpos => absurd hcols (Nat.ne_of_gt hpos)⟩
    · rw [hmerge] at hok
      obtain ⟨rfl, -⟩ := Prod.mk.inj hok
      refine ⟨rfl, fun third hn hne' => ?_, fun hzero => absurd hzero (Nat.ne_of_gt hcols),
        fun _ => ⟨table_put_self _ other _, ?_⟩⟩
      · rw [table_put, if_neg hne', table_put, if_neg hn]
      · rw [table_put, if_neg hne, table_put_self]
        exact hc.joined_merged ho hp hpo hcols hrows

/-- One table has a column of two blocks. The other one has two columns that share their second
block; both tables have a label of the same name. -/
def neighbours : Catalog :=
  Catalog.empty.run
    [.appendColumns 0 .int 1 1 .columnMajor (.copied #[10]),
      .appendRows 0 .int 2 1 .columnMajor (.copied #[20, 30]),
      .label 0 "count" 0,
      .appendColumns 1 .int 2 1 .columnMajor (.copied #[11, 21]),
      .appendColumns 1 .int 2 1 .columnMajor (.copied #[12, 22]),
      .appendRows 1 .int 1 2 .rowMajor (.copied #[31, 32]),
      .label 1 "count" 0,
      .label 1 "total" 1]

theorem merges_exactly_neighbours :
    ∃ later status, neighbours.perform (.merge 0 1) = (later, .ok status) ∧
      later.table 1 = Table.empty ∧ (later.table 0).chainLength 2 = .ok 2 ∧
      (later.table 0).get later.heap .int 2 2 = .ok (32 : Int64) ∧
      (later.table 0).columnLabel 1 = .ok "" ∧ (later.table 0).labeledColumn "total" = .ok 2 := by
  have hr : neighbours.Reachable := Reachable.empty.run _
  obtain ⟨hiff, hmerged⟩ := hr.merges_exactly (show 0 ≠ 1 by decide)
  obtain ⟨status, hok⟩ := hiff.2
    ⟨by decide +kernel, by decide +kernel, .inr (.inr (by decide +kernel))⟩
  obtain ⟨hheap, -, -, hmoved⟩ := hmerged _ status (Prod.ext rfl hok)
  obtain ⟨hempty, hjoined⟩ := hmoved (by decide +kernel)
  have hcols : (neighbours.table 0).cols = 1 := by decide +kernel
  have hsame := hjoined.moved 1 (by decide +kernel)
  have hlabel := (hjoined.movedLabel 0 "count" (by decide +kernel)).1 ⟨0, by decide +kernel⟩
  rw [hcols] at hsame hlabel
  refine ⟨_, status, Prod.ext rfl hok, hempty, ?_, ?_, hlabel, ?_⟩
  · rw [hsame.chainLength]
    decide +kernel
  · rw [hheap, hsame.get]
    decide +kernel
  · rw [hjoined.labeledColumn]
    decide +kernel

end Catalog

end TypedTable
