import TypedTable.Proofs.Catalog

/-!
# What calls can make of a table

A call changes a table in one of a few ways, or in several of them one after the other. A property
that the empty table has and that each of these changes keeps is a property of every table that
calls lead to.
-/

set_option autoImplicit false

namespace TypedTable

namespace Table

/-- The changes of a table. A load is a sequence of blocks and labels, and a refused selection of a
rectangle may leave the selections in another order. -/
inductive Change (heap : Heap) (table : Table) : Table → Prop
  | appendColumns {type : ScalarType} {rows cols : Nat} {order : Order} {storage : Storage type}
    {later : Table} (hok : table.appendColumns heap rows cols order storage = .ok later) :
    Change heap table later
  | appendRows {type : ScalarType} {rows cols : Nat} {order : Order} {storage : Storage type}
    {later : Table} (hok : table.appendRows heap rows cols order storage = .ok later) :
    Change heap table later
  | merged {other : Table} (hc : 0 < other.cols) (hr : 0 < table.cols → table.rows = other.rows) :
    Change heap table (merged table other)
  | set {type : ScalarType} {row col : Nat} {value : type.Carrier} {result : Heap × Table}
    (hok : table.set heap type row col value = .ok result) : Change heap table result.2
  | label {name : String} {col : Nat} {later : Table} (hok : table.label name col = .ok later) :
    Change heap table later
  | selectRows {key : String} {rows : Interval} {later : Table}
    (hok : table.selectRows key rows = .ok later) : Change heap table later
  | selectCols {key : String} {cols : Interval} {later : Table}
    (hok : table.selectCols key cols = .ok later) : Change heap table later
  | restored {selections : Selections}
    (hs : ∀ key, selections.find? key = table.selections.find? key) :
    Change heap table { table with selections := selections }
  | unselectRows {key : String} {rows : Interval} {later : Table} {status : Status}
    (hok : table.unselectRows key rows = .ok (later, status)) : Change heap table later
  | unselectCols {key : String} {cols : Interval} {later : Table} {status : Status}
    (hok : table.unselectCols key cols = .ok (later, status)) : Change heap table later
  | dropSelection (key : String) : Change heap table (table.dropSelection key).1
  | selectNonMissing {key : String} {fullRows : Bool} {later : Table}
    (hok : table.selectNonMissing heap key fullRows = .ok later) : Change heap table later

variable {heap : Heap} {table later : Table}

namespace Consistent

variable {type : ScalarType} {rows cols : Nat} {order : Order} {storage : Storage type}

theorem wide_appendColumns (h : table.Consistent heap)
    (hok : table.appendColumns heap rows cols order storage = .ok later) : 0 < later.cols := by
  obtain ⟨dense, span, -, -, -, -, hdense, rfl⟩ := h.appendColumns_eq_ok hok
  obtain ⟨-, hfilled, -⟩ := Dense.make_eq_ok hdense
  exact Nat.lt_of_lt_of_le hfilled.cols_pos (Nat.le_add_left dense.cols table.cols)

theorem wide_appendRows (h : table.Consistent heap)
    (hok : table.appendRows heap rows cols order storage = .ok later) : 0 < later.cols := by
  by_cases hc : 0 < table.cols
  · obtain ⟨dense, span, tails, -, -, -, -, -, -, -, rfl⟩ := h.appendRows_eq_ok hc hok
    exact hc
  · rw [appendRows_of_no_cols hc] at hok
    exact h.wide_appendColumns hok

theorem selections_appendColumns (h : table.Consistent heap)
    (hok : table.appendColumns heap rows cols order storage = .ok later) :
    later.selections = table.selections := by
  obtain ⟨dense, span, -, -, -, -, -, rfl⟩ := h.appendColumns_eq_ok hok
  rfl

theorem selections_appendRows (h : table.Consistent heap)
    (hok : table.appendRows heap rows cols order storage = .ok later) :
    later.selections = table.selections := by
  by_cases hc : 0 < table.cols
  · obtain ⟨dense, span, tails, -, -, -, -, -, -, -, rfl⟩ := h.appendRows_eq_ok hc hok
    rfl
  · rw [appendRows_of_no_cols hc] at hok
    exact h.selections_appendColumns hok

theorem selections_set (h : table.Consistent heap) {row col : Nat} {value : type.Carrier}
    {result : Heap × Table} (hok : table.set heap type row col value = .ok result) :
    result.2.selections = table.selections := by
  obtain ⟨-, -, -, place, entry, above, offset, below, dense, -, -, htable⟩ := h.set_eq_ok hok
  rw [htable]

/-- A table without columns has no rows either, so the first block makes it no smaller. -/
theorem grows_appendColumns (h : table.Consistent heap)
    (hok : table.appendColumns heap rows cols order storage = .ok later) :
    table.rows ≤ later.rows ∧ table.cols ≤ later.cols := by
  obtain ⟨dense, span, -, hrows, -, -, hdense, rfl⟩ := h.appendColumns_eq_ok hok
  obtain ⟨rfl, -, -⟩ := Dense.make_eq_ok hdense
  refine ⟨?_, Nat.le_add_right _ _⟩
  show table.rows ≤ rows
  rcases Nat.eq_zero_or_pos table.cols with hzero | hpos
  · have := h.noRows hzero
    omega
  · exact Nat.le_of_eq (hrows hpos).symm

theorem grows_appendRows (h : table.Consistent heap)
    (hok : table.appendRows heap rows cols order storage = .ok later) :
    table.rows ≤ later.rows ∧ table.cols ≤ later.cols := by
  by_cases hc : 0 < table.cols
  · obtain ⟨dense, span, tails, -, -, -, -, -, -, -, rfl⟩ := h.appendRows_eq_ok hc hok
    refine ⟨?_, Nat.le_refl table.cols⟩
    unfold Table.linkRows
    dsimp only
    split
    · exact Nat.le_add_right _ _
    · exact Nat.le_refl _
  · rw [appendRows_of_no_cols hc] at hok
    exact h.grows_appendColumns hok

theorem grows_merged (h : table.Consistent heap) {other : Table}
    (hr : 0 < table.cols → table.rows = other.rows) :
    table.rows ≤ (merged table other).rows ∧ table.cols ≤ (merged table other).cols := by
  refine ⟨?_, Nat.le_add_right _ _⟩
  show table.rows ≤ other.rows
  rcases Nat.eq_zero_or_pos table.cols with hzero | hpos
  · have := h.noRows hzero
    omega
  · exact Nat.le_of_eq (hr hpos)

end Consistent

theorem selections_label {name : String} {col : Nat} (hok : table.label name col = .ok later) :
    later.selections = table.selections := by
  obtain ⟨u, -, hok⟩ := refuse_bind_eq_ok_iff.1 hok
  obtain ⟨v, -, hok⟩ := refuse_bind_eq_ok_iff.1 hok
  cases hok
  rfl

theorem Annotates.grows (h : table.Annotates later) :
    table.rows ≤ later.rows ∧ table.cols ≤ later.cols := by
  obtain ⟨labels, selections, -, rfl⟩ := h
  exact ⟨Nat.le_refl _, Nat.le_refl _⟩

theorem Change.grows (h : table.Change heap later) (hc : table.Consistent heap) :
    table.rows ≤ later.rows ∧ table.cols ≤ later.cols := by
  cases h with
  | appendColumns hok => exact hc.grows_appendColumns hok
  | appendRows hok => exact hc.grows_appendRows hok
  | merged hcols hrows => exact hc.grows_merged hrows
  | set hok =>
    obtain ⟨-, -, -, place, entry, above, offset, below, dense, -, -, htable⟩ := hc.set_eq_ok hok
    rw [htable]
    exact ⟨Nat.le_refl _, Nat.le_refl _⟩
  | label hok => exact (Annotates.label hok).grows
  | selectRows hok => exact (Annotates.selectRows hok).grows
  | selectCols hok => exact (Annotates.selectCols hok).grows
  | restored hs => exact (Annotates.withSelections table _).grows
  | unselectRows hok => exact (Annotates.unselectRows hok).grows
  | unselectCols hok => exact (Annotates.unselectCols hok).grows
  | dropSelection key => exact (Annotates.dropSelection table key).grows
  | selectNonMissing hok => exact (Annotates.selectNonMissing hok).grows

/-- The empty table has the property, and no change of a consistent table destroys it. -/
structure Kept (P : Table → Prop) : Prop where
  empty : P Table.empty
  change : ∀ {heap : Heap} {table later : Table}, table.Consistent heap → P table →
    table.Change heap later → P later

end Table

namespace Csv

variable {heap : Heap} {table : Table} {P : Table → Prop}

theorem load_kept (hP : Table.Kept P) (hc : table.Consistent heap) (h : P table) {s : Settings}
    {input : Except ReadFault Feed} {result : Table × Status}
    (hok : load table s input = .ok result) : P result.1 := by
  unfold load at hok
  split at hok
  · cases hok
  · split at hok
    · cases hok
    · have hboth : result.1.Consistent heap ∧ P result.1 := by
        refine Loading.fill_keeps (P := fun table => table.Consistent heap ∧ P table) ?_ ?_ ⟨hc, h⟩
          (mapError_eq_ok_iff.1 hok)
        · rintro table later type rows cols order cells ⟨hc, h⟩ hadopt
          refine ⟨Loading.adopt_consistent hc hadopt, hP.change hc h ?_⟩
          rw [Loading.adopt_eq heap] at hadopt
          exact .appendColumns (mapError_eq_ok_iff.1 hadopt)
        · rintro table later name col ⟨hc, h⟩ hlabel
          exact ⟨hc.label hlabel, hP.change hc h (.label hlabel)⟩
      exact hboth.2

theorem load_refused_kept (hP : Table.Kept P) (h : P table) {s : Settings}
    {input : Except ReadFault Feed} {halted : Halted Table}
    (he : load table s input = .error halted) : P halted.left := by
  rcases load_refused he with hleft | hleft
  · exact hleft ▸ h
  · exact hleft ▸ hP.empty

end Csv

namespace Catalog

variable {catalog : Catalog} {P : Table → Prop}

section All

variable (h : ∀ number, P (catalog.table number)) {target : Nat}

include h

theorem all_put {table : Table} (ht : P table) (number : Nat) :
    P ((catalog.put target table).table number) := by
  rw [table_put]
  split
  · exact ht
  · exact h number

theorem all_replace {change : Except (Refused Table) Table}
    (hc : ∀ table, change = .ok table → P table)
    (hl : ∀ refused, change = .error refused → P refused.left) (number : Nat) :
    P ((catalog.replace target change).1.table number) := by
  cases change with
  | ok table => exact all_put h (hc table rfl) number
  | error refused => exact all_put h (hl refused rfl) number

theorem all_replaceWith {change : Except (Refused Table) (Table × Status)}
    (hc : ∀ table status, change = .ok (table, status) → P table)
    (hl : Leaves (catalog.table target) change) (number : Nat) :
    P ((catalog.replaceWith target change).1.table number) := by
  cases change with
  | ok result => exact all_put h (hc result.1 result.2 rfl) number
  | error refused => exact all_put h (hl.holds (h target) refused rfl) number

theorem kept_merge (hP : Table.Kept P) (hc : catalog.Consistent) (other number : Nat) :
    P ((catalog.perform (.merge target other)).1.table number) := by
  unfold Catalog.perform
  dsimp only
  rcases (hc target).merge_cases (hc other) with
      ⟨fault, -, hmerge⟩ | ⟨-, -, ⟨-, hmerge⟩ | ⟨hcols, hrows, hmerge⟩⟩
  · rw [hmerge]
    exact all_put (all_put h (h target)) (h other) number
  · rw [hmerge]
    exact all_put (all_put h (h target)) (h other) number
  · rw [hmerge]
    have hmerged := hP.change (hc target) (h target) (.merged hcols hrows)
    exact all_put (all_put h hmerged) hP.empty number

theorem kept_selectSlice (hP : Table.Kept P) (hc : catalog.Consistent) (key : String)
    (rows cols : Interval) (number : Nat) :
    P ((catalog.perform (.selectSlice target key rows cols)).1.table number) := by
  refine all_replace h (fun later hok => ?_) (fun refused he => ?_) number
  · obtain ⟨u, -, hok⟩ := refuse_bind_eq_ok_iff.1 hok
    obtain ⟨added, hadded, hok⟩ := bind_eq_ok_iff.1 (within_eq_ok_iff.1 hok)
    have hfirst := hP.change (hc target) (h target) (.selectRows hadded)
    exact hP.change ((hc target).selectRows hadded) hfirst (.selectCols hok)
  · obtain ⟨selections, hleft, hsame⟩ := Table.selectSlice_refused_eq he
    exact hleft ▸ hP.change (hc target) (h target) (.restored hsame)

/-- An operation keeps the property for all tables, whether it is carried out or refused. -/
theorem kept_perform (hP : Table.Kept P) (hc : catalog.Consistent) (operation : Operation)
    (number : Nat) : P ((catalog.perform operation).1.table number) := by
  have hchange {target : Nat} {later : Table}
      (hl : (catalog.table target).Change catalog.heap later) : P later :=
    hP.change (hc target) (h target) hl
  cases operation with
  | writeBuffer type buffer index value => exact h number
  | appendColumns target type rows cols order storage =>
    exact all_replace h (fun later hok => hchange (.appendColumns hok))
      (Table.leaves_appendColumns.holds (h target)) number
  | appendRows target type rows cols order storage =>
    exact all_replace h (fun later hok => hchange (.appendRows hok))
      (Table.leaves_appendRows.holds (h target)) number
  | merge target other => exact kept_merge h hP hc other number
  | set target type row col value =>
    unfold Catalog.perform
    dsimp only
    split
    next heap later hok =>
      exact @all_put { catalog with heap := heap } P h target _ (hchange (.set hok)) number
    next refused he =>
      rw [Table.leaves_set refused he]
      exact all_put h (h target) number
  | label target name col =>
    exact all_replace h (fun later hok => hchange (.label hok))
      (Table.leaves_label.holds (h target)) number
  | selectRows target key rows =>
    exact all_replace h (fun later hok => hchange (.selectRows hok))
      (Table.leaves_selectRows.holds (h target)) number
  | selectCols target key cols =>
    exact all_replace h (fun later hok => hchange (.selectCols hok))
      (Table.leaves_selectCols.holds (h target)) number
  | selectSlice target key rows cols => exact kept_selectSlice h hP hc key rows cols number
  | unselectRows target key rows =>
    exact all_replaceWith h (fun later status hok => hchange (.unselectRows hok))
      Table.leaves_unselectRows number
  | unselectCols target key cols =>
    exact all_replaceWith h (fun later status hok => hchange (.unselectCols hok))
      Table.leaves_unselectCols number
  | dropSelection target key => exact all_put h (hchange (.dropSelection key)) number
  | selectNonMissing target key fullRows =>
    exact all_replace h (fun later hok => hchange (.selectNonMissing hok))
      (Table.leaves_selectNonMissing.holds (h target)) number
  | load target settings input =>
    unfold Catalog.perform
    dsimp only
    split
    next later status hok => exact all_put h (Csv.load_kept hP (hc target) (h target) hok) number
    next halted he => exact all_put h (Csv.load_refused_kept hP (h target) he) number

end All

/-- A property that every change keeps is a property of all tables of a reachable catalog. -/
theorem Reachable.kept (hP : Table.Kept P) (h : catalog.Reachable) (number : Nat) :
    P (catalog.table number) := by
  induction h generalizing number with
  | empty => exact hP.empty
  | allocate h cells ih => exact ih number
  | perform h operation ih => exact kept_perform ih hP h.consistent operation number

end Catalog

end TypedTable
