import TypedTable.Proofs.Table.Missing

/-!
# Rows that are removed from a selection

A row that was removed from a selection stays out of it until an operation adds it again, and an
extraction copies the rows of the selection and no others. Only an empty half of a selection stands
for more than it has: for all rows, the removed ones among them.
-/

set_option autoImplicit false

namespace TypedTable

namespace Table

def Omits (table : Table) (key : String) (row : Nat) : Prop :=
  ∃ selection, table.selections.find? key = some selection ∧ row ∉ selection.rows

variable {heap : Heap} {table later : Table} {key other : String} {row : Nat}

namespace Omits

theorem of_selections (h : table.Omits key row) (hs : later.selections = table.selections) :
    later.Omits key row := by
  obtain ⟨selection, hfind, hrow⟩ := h
  exact ⟨selection, hs ▸ hfind, hrow⟩

theorem findOrNew (h : table.Omits key row) : row ∉ (table.selections.findOrNew key).rows := by
  obtain ⟨selection, hfind, hrow⟩ := h
  rwa [Selections.findOrNew, hfind]

/-- A selection that is put back may be the one under `key` or another. -/
theorem withSelection (h : table.Omits key row) {selection : Selection}
    (hs : other = key → row ∉ selection.rows) :
    (table.withSelection other selection).Omits key row := by
  by_cases hkey : key = other
  · exact ⟨selection, by rw [find?_withSelection, if_pos hkey], hs hkey.symm⟩
  · obtain ⟨found, hfind, hrow⟩ := h
    exact ⟨found, by rw [find?_withSelection, if_neg hkey, hfind], hrow⟩

theorem selectRows (h : table.Omits key row) {rows : Interval}
    (hok : table.selectRows other rows = .ok later) (hs : other = key → row ∉ rows) :
    later.Omits key row := by
  obtain ⟨-, -, rfl⟩ := selectRows_eq_ok hok
  refine h.withSelection ?_
  rintro rfl
  rw [IndexSet.mem_insert, not_or]
  exact ⟨h.findOrNew, hs rfl⟩

theorem selectCols (h : table.Omits key row) {cols : Interval}
    (hok : table.selectCols other cols = .ok later) : later.Omits key row := by
  obtain ⟨-, -, rfl⟩ := selectCols_eq_ok hok
  refine h.withSelection ?_
  rintro rfl
  exact h.findOrNew

theorem selectSlice (h : table.Omits key row) {rows cols : Interval}
    (hok : table.selectSlice other rows cols = .ok later) (hs : other = key → row ∉ rows) :
    later.Omits key row := by
  obtain ⟨u, -, hok⟩ := refuse_bind_eq_ok_iff.1 hok
  obtain ⟨added, hadded, hok⟩ := bind_eq_ok_iff.1 (within_eq_ok_iff.1 hok)
  exact (h.selectRows hadded hs).selectCols hok

theorem selectSlice_refused (h : table.Omits key row) {rows cols : Interval}
    {refused : Refused Table} (he : table.selectSlice other rows cols = .error refused) :
    refused.left.Omits key row := by
  obtain ⟨selection, hfind, hrow⟩ := h
  exact ⟨selection, ((selectSlice_refused_alike {} he).selection key).trans hfind, hrow⟩

theorem unselectRows (h : table.Omits key row) {rows : Interval} {status : Status}
    (hok : table.unselectRows other rows = .ok (later, status)) : later.Omits key row := by
  obtain ⟨u, -, hok⟩ := refuse_bind_eq_ok_iff.1 hok
  split at hok
  next selection hfind =>
    cases hok
    refine h.withSelection ?_
    rintro rfl hrow
    obtain ⟨found, hfound, hout⟩ := h
    obtain rfl := Option.some.inj (hfind.symm.trans hfound)
    exact hout (IndexSet.mem_erase.1 hrow).1
  next =>
    cases hok
    exact h

theorem unselectCols (h : table.Omits key row) {cols : Interval} {status : Status}
    (hok : table.unselectCols other cols = .ok (later, status)) : later.Omits key row := by
  obtain ⟨u, -, hok⟩ := refuse_bind_eq_ok_iff.1 hok
  split at hok
  next selection hfind =>
    cases hok
    refine h.withSelection ?_
    rintro rfl
    obtain ⟨found, hfound, hout⟩ := h
    obtain rfl := Option.some.inj (hfind.symm.trans hfound)
    exact hout
  next =>
    cases hok
    exact h

theorem dropSelection (h : table.Omits key row) (hs : other ≠ key) :
    (table.dropSelection other).1.Omits key row := by
  unfold Table.dropSelection
  split
  · obtain ⟨selection, hfind, hrow⟩ := h
    exact ⟨selection, (Keyed.find?_erase_of_ne _ hs.symm).trans hfind, hrow⟩
  · exact h

theorem selectNonMissing (h : table.Omits key row) (hc : table.Consistent heap) {fullRows : Bool}
    (hok : table.selectNonMissing heap other fullRows = .ok later)
    (hs : other = key → (table.selections.findOrNew key).rows.isEmpty = true →
      table.HasGap heap key fullRows row) :
    later.Omits key row := by
  obtain ⟨rows, rfl, hgaps, hfirst⟩ := hc.selectNonMissing_eq_ok hok
  refine h.withSelection ?_
  rintro rfl hrow
  cases hempty : (table.selections.findOrNew other).rows.isEmpty with
  | true => exact hgaps row hrow (hs rfl hempty)
  | false => exact h.findOrNew (hfirst hempty row hrow)

end Omits

theorem omits_unselectRows (hp : table.pending = none) {selection : Selection}
    (hkey : table.selections.find? key = some selection) {rows : Interval} (hr : row ∈ rows) :
    ∃ later, table.unselectRows key rows = .ok (later, .success) ∧ later.Omits key row := by
  refine ⟨table.withSelection key { selection with rows := selection.rows.erase rows }, ?_,
    { selection with rows := selection.rows.erase rows }, ?_, ?_⟩
  · rw [unselectRows, checkComplete_eq_ok (u := ()) |>.2 hp, refuse_ok, ok_bind, hkey]
    rfl
  · rw [find?_withSelection, if_pos rfl]
  · rw [IndexSet.mem_erase, not_and_not_right]
    exact fun _ => hr

theorem Consistent.omits_selectNonMissing (h : table.Consistent heap) {fullRows : Bool}
    (hok : table.selectNonMissing heap key fullRows = .ok later)
    (hg : table.HasGap heap key fullRows row) : later.Omits key row := by
  obtain ⟨rows, rfl, hgaps, -⟩ := h.selectNonMissing_eq_ok hok
  exact ⟨_, by rw [find?_withSelection, if_pos rfl], fun hrow => hgaps row hrow hg⟩

end Table

namespace Catalog

variable {catalog later : Catalog} {number : Nat} {key : String} {row : Nat}

/-- Whether an operation takes a row out of selection `key` of table `number`: the rows to remove
have it, or a call that removes the rows with missing values finds one in it. -/
def Removes (catalog : Catalog) (number : Nat) (key : String) (row : Nat) : Operation → Prop
  | .unselectRows table name rows => table = number ∧ name = key ∧ row ∈ rows
  | .selectNonMissing table name fullRows => table = number ∧ name = key ∧
      (catalog.table number).HasGap catalog.heap key fullRows row ∧
      (catalog.perform (.selectNonMissing table name fullRows)).2 = .ok .success
  | _ => False

/-- Whether an operation adds a row to a selection. A call that removes the rows with missing values
begins with all rows if the selection has none, and so adds those that it does not remove. -/
def Adds (catalog : Catalog) (number : Nat) (key : String) (row : Nat) : Operation → Prop
  | .selectRows table name rows => table = number ∧ name = key ∧ row ∈ rows
  | .selectSlice table name rows _ => table = number ∧ name = key ∧ row ∈ rows
  | .selectNonMissing table name fullRows => table = number ∧ name = key ∧
      ((catalog.table number).selections.findOrNew key).rows.isEmpty = true ∧
      ¬ (catalog.table number).HasGap catalog.heap key fullRows row
  | _ => False

def Drops (number : Nat) (key : String) : Operation → Prop
  | .dropSelection table name => table = number ∧ name = key
  | .merge _ other => other = number
  | _ => False

/-- The catalogs that calls lead to none of which adds the row to the selection or takes the
selection away. A refused operation does neither. -/
inductive Spares (number : Nat) (key : String) (row : Nat) (catalog : Catalog) : Catalog → Prop
  | refl : Spares number key row catalog catalog
  | allocate {later : Catalog} (h : Spares number key row catalog later) {type : ScalarType}
    (cells : Array type.Carrier) : Spares number key row catalog (later.allocate cells).2
  | perform {later : Catalog} (h : Spares number key row catalog later) (operation : Operation)
    (hs : ∀ status, (later.perform operation).2 = .ok status →
      ¬ later.Adds number key row operation ∧ ¬ Drops number key operation) :
    Spares number key row catalog (later.perform operation).1

theorem Spares.reachable (h : Spares number key row catalog later) (hc : catalog.Reachable) :
    later.Reachable := by
  induction h with
  | refl => exact hc
  | allocate h cells ih => exact ih.allocate cells
  | perform h operation hs ih => exact ih.perform operation

section Step

variable {target : Nat} (h : (catalog.table number).Omits key row)

include h

theorem omits_put {table : Table} (ht : target = number → table.Omits key row) :
    ((catalog.put target table).table number).Omits key row := by
  rw [table_put]
  split
  next he => exact ht he.symm
  next => exact h

theorem omits_replace {change : Except (Refused Table) Table}
    (hl : Leaves (catalog.table target) change)
    (hc : ∀ table, change = .ok table → target = number → table.Omits key row) :
    ((catalog.replace target change).1.table number).Omits key row := by
  rcases catalog.table_replace target hl number with hsame | ⟨table, rfl, hok, hlater⟩
  · exact hsame ▸ h
  · exact hlater ▸ hc table hok rfl

theorem omits_replaceWith {change : Except (Refused Table) (Table × Status)}
    (hl : Leaves (catalog.table target) change)
    (hc : ∀ table status, change = .ok (table, status) → target = number → table.Omits key row) :
    ((catalog.replaceWith target change).1.table number).Omits key row := by
  rcases catalog.table_replaceWith target hl number with hsame | ⟨result, rfl, hok, hlater⟩
  · exact hsame ▸ h
  · exact hlater ▸ hc result.1 result.2 hok rfl

theorem omits_merge (hc : catalog.Reachable) {other : Nat}
    (hs : ∀ status, (catalog.perform (.merge target other)).2 = .ok status → other ≠ number) :
    ((catalog.perform (.merge target other)).1.table number).Omits key row := by
  have hback : (((catalog.put target (catalog.table target)).put other
      (catalog.table other)).table number).Omits key row := by
    apply omits_put (omits_put h fun he => he ▸ h)
    exact fun he => he ▸ h
  unfold Catalog.perform at hs ⊢
  dsimp only at hs ⊢
  rcases (hc.consistent target).merge_cases (hc.consistent other) with
      ⟨fault, -, hmerge⟩ | ⟨-, -, ⟨-, hmerge⟩ | ⟨-, -, hmerge⟩⟩
  · rw [hmerge]
    exact hback
  · rw [hmerge]
    exact hback
  · rw [hmerge] at hs ⊢
    exact omits_put (omits_put h fun he => he ▸ h.of_selections rfl)
      fun he => absurd he (hs .success rfl)

theorem omits_load (hc : catalog.Reachable) (settings : Csv.Settings)
    (input : Except Csv.ReadFault Csv.Feed) :
    ((catalog.perform (.load target settings input)).1.table number).Omits key row := by
  unfold Catalog.perform
  dsimp only
  by_cases he : target = number
  · subst he
    -- a table with a selection has columns, and so it is not loaded
    have hw : 0 < (catalog.table target).cols := by
      rcases hc.emptyOrWide target with hempty | hw
      · obtain ⟨selection, hfind, -⟩ := h
        rw [hempty] at hfind
        cases hfind
      · exact hw
    obtain ⟨fault, hload⟩ := Csv.load_of_cols settings input hw
    rw [hload]
    dsimp only
    rwa [table_put_same]
  · split
    next => exact omits_put h fun hsame => absurd hsame he
    next => exact omits_put h fun hsame => absurd hsame he

/-- One call keeps a row out of a selection unless it adds it or takes the selection away. -/
theorem omits_perform (hc : catalog.Reachable) {operation : Operation}
    (hs : ∀ status, (catalog.perform operation).2 = .ok status →
      ¬ catalog.Adds number key row operation ∧ ¬ Drops number key operation) :
    ((catalog.perform operation).1.table number).Omits key row := by
  cases operation with
  | writeBuffer type buffer index value => exact h
  | appendColumns target type rows cols order storage =>
    refine omits_replace h Table.leaves_appendColumns fun table hok he => ?_
    subst he
    exact h.of_selections ((hc.consistent _).selections_appendColumns hok)
  | appendRows target type rows cols order storage =>
    refine omits_replace h Table.leaves_appendRows fun table hok he => ?_
    subst he
    exact h.of_selections ((hc.consistent _).selections_appendRows hok)
  | merge target other => exact omits_merge h hc fun status hok => (hs status hok).2
  | set target type row col value =>
    unfold Catalog.perform
    dsimp only
    split
    next heap table hok =>
      refine omits_put h fun he => ?_
      subst he
      exact h.of_selections ((hc.consistent target).selections_set hok)
    next refused he =>
      rw [Table.leaves_set refused he]
      exact omits_put h fun hsame => hsame ▸ h
  | label target name col =>
    refine omits_replace h Table.leaves_label fun table hok he => ?_
    subst he
    exact h.of_selections (Table.selections_label hok)
  -- the calls that can add the row
  | selectRows target other rows =>
    refine omits_replace h Table.leaves_selectRows fun table hok he => ?_
    subst he
    have hadds := (hs .success (by rw [Catalog.perform, hok]; rfl)).1
    exact h.selectRows hok fun hkey hrow => hadds ⟨rfl, hkey, hrow⟩
  | selectCols target other cols =>
    refine omits_replace h Table.leaves_selectCols fun table hok he => ?_
    subst he
    exact h.selectCols hok
  | selectSlice target other rows cols =>
    unfold Catalog.perform Catalog.replace at hs ⊢
    dsimp only at hs ⊢
    split
    next table hok =>
      refine omits_put h fun he => ?_
      subst he
      rw [hok] at hs
      exact h.selectSlice hok fun hkey hrow => (hs .success rfl).1 ⟨rfl, hkey, hrow⟩
    next refused he =>
      refine omits_put h fun hsame => ?_
      subst hsame
      exact h.selectSlice_refused he
  | unselectRows target other rows =>
    refine omits_replaceWith h Table.leaves_unselectRows fun table status hok he => ?_
    subst he
    exact h.unselectRows hok
  | unselectCols target other cols =>
    refine omits_replaceWith h Table.leaves_unselectCols fun table status hok he => ?_
    subst he
    exact h.unselectCols hok
  | dropSelection target other =>
    refine omits_put h fun he => ?_
    subst he
    exact h.dropSelection fun hkey => (hs _ rfl).2 ⟨rfl, hkey⟩
  | selectNonMissing target other fullRows =>
    refine omits_replace h Table.leaves_selectNonMissing fun table hok he => ?_
    subst he
    have hadds := (hs .success (by rw [Catalog.perform, hok]; rfl)).1
    refine h.selectNonMissing (hc.consistent _) hok fun hkey hempty => ?_
    exact not_not.1 fun hgap => hadds ⟨rfl, hkey, hempty, hgap⟩
  | load target settings input => exact omits_load h hc settings input

end Step

/-- Calls that neither add a row to a selection nor take the selection away keep the row out. -/
theorem Spares.omits (h : Spares number key row catalog later) (hc : catalog.Reachable)
    (ho : (catalog.table number).Omits key row) : (later.table number).Omits key row := by
  induction h with
  | refl => exact ho
  | allocate h cells ih => exact ih
  | perform h operation hs ih => exact omits_perform ih (h.reachable hc) hs

theorem Reachable.omits_removed (h : catalog.Reachable)
    (hp : (catalog.table number).pending = none) {selection : Selection}
    (hkey : (catalog.table number).selections.find? key = some selection) {operation : Operation}
    (hr : catalog.Removes number key row operation) :
    (catalog.perform operation).2 = .ok .success ∧
      ((catalog.perform operation).1.table number).Omits key row := by
  cases operation with
  | unselectRows target other rows =>
    obtain ⟨rfl, rfl, hrow⟩ := hr
    obtain ⟨later, hok, homits⟩ := Table.omits_unselectRows hp hkey hrow
    rw [Catalog.perform, hok]
    exact ⟨rfl, by rwa [Catalog.replaceWith, table_put_self]⟩
  | selectNonMissing target other fullRows =>
    obtain ⟨rfl, rfl, hgap, hok⟩ := hr
    exact ⟨hok, (h.consistent _).omits_selectNonMissing (Consistent.of_replace_ok hok) hgap⟩
  | _ => exact hr.elim

/-- Once a row is removed from a selection, and until a call adds it again or takes the selection
away, the selection is without the row. An extraction of it copies the cells of the selected rows
and leaves everything else in the output alone, so it copies nothing of the removed row, unless no
row at all is selected: then it copies all rows. -/
theorem Reachable.extracted_without_removed (h : catalog.Reachable)
    (hp : (catalog.table number).pending = none)
    (hkey : (catalog.table number).selections.contains key = true) {operation : Operation}
    (hr : catalog.Removes number key row operation)
    (hl : Spares number key row (catalog.perform operation).1 later) :
    (catalog.perform operation).2 = .ok .success ∧
      ∃ selection, (later.table number).selections.find? key = some selection ∧
        row ∉ selection.rows ∧
        (selection.rows.isEmpty = false →
          row ∉ selection.rows.orAll (later.table number).rows) ∧
        ∀ (type : ScalarType) (order : Order) (lead : Nat) (out copied : Array type.Carrier)
          (status : Status),
          (later.table number).extractSelection later.heap type key order lead out =
            .ok (copied, status) →
          (later.table number).Extracted later.heap type
            (selection.rows.orAll (later.table number).rows)
            (selection.cols.orAll (later.table number).cols) order lead out copied := by
  obtain ⟨old, hold⟩ := Option.isSome_iff_exists.1 hkey
  obtain ⟨hok, homits⟩ := h.omits_removed hp hold hr
  have hreachable : (catalog.perform operation).1.Reachable := h.perform operation
  obtain ⟨selection, hfind, hrow⟩ := hl.omits hreachable homits
  refine ⟨hok, selection, hfind, hrow, fun hsome => ?_,
    fun type order lead out copied status hok => ?_⟩
  · rw [IndexSet.orAll, if_neg (Bool.not_eq_true _ ▸ hsome), IndexSet.mem_toList]
    exact hrow
  · exact ((hl.reachable hreachable).consistent number).extracted_of_ok hfind hok

def gapped : Catalog :=
  Catalog.empty.run
    [.appendColumns 0 .int 3 1 .columnMajor (.copied #[10, Int64.maxValue, 30]),
      .selectRows 0 "kept" { lower := 0, upper := 2 }]

def refilled : Catalog :=
  ((gapped.perform (.selectNonMissing 0 "kept" false)).1.perform
    (.selectRows 0 "kept" (.point 0))).1

theorem extracted_without_gap :
    ∃ selection, (refilled.table 0).selections.find? "kept" = some selection ∧
      1 ∉ selection.rows ∧ selection.rows.orAll (refilled.table 0).rows = [0, 2] ∧
      (refilled.table 0).Extracted refilled.heap .int (selection.rows.orAll (refilled.table 0).rows)
        (selection.cols.orAll (refilled.table 0).cols) .columnMajor 2 #[0, 0] #[10, 30] := by
  have hr : gapped.Reachable := Reachable.empty.run _
  have hgap : gapped.Removes 0 "kept" 1 (.selectNonMissing 0 "kept" false) := by
    refine ⟨rfl, rfl, ⟨0, .int, Int64.maxValue, ?_, ?_, ?_⟩, ?_⟩
    · exact .inr (.inl (by decide +kernel))
    · decide +kernel
    · decide +kernel
    · decide +kernel
  have hl : Spares 0 "kept" 1 (gapped.perform (.selectNonMissing 0 "kept" false)).1 refilled := by
    refine .perform .refl (.selectRows 0 "kept" (.point 0)) fun status _ => ⟨?_, id⟩
    rintro ⟨-, -, hrow⟩
    rw [Interval.mem_point] at hrow
    cases hrow
  obtain ⟨-, selection, hfind, hrow, -, hextract⟩ :=
    Reachable.extracted_without_removed hr (by decide +kernel) (by decide +kernel) hgap hl
  have hsame : (refilled.table 0).selections.find? "kept" =
      some { rows := ⟨[.point 0, .point 2]⟩ } := by decide +kernel
  obtain rfl := Option.some.inj (hfind.symm.trans hsame)
  exact ⟨_, hfind, hrow, by decide +kernel,
    hextract .int .columnMajor 2 #[0, 0] #[10, 30] .success (by decide +kernel)⟩

def oneRow : Catalog :=
  Catalog.empty.run
    [.appendColumns 0 .int 1 1 .columnMajor (.copied #[10]), .selectRows 0 "all" (.point 0)]

/-- The only row of a table is removed from a selection, and at once an extraction copies it. -/
theorem removed_row_extracted :
    oneRow.Reachable ∧ (oneRow.table 0).pending = none ∧
      (oneRow.table 0).selections.contains "all" = true ∧
      oneRow.Removes 0 "all" 0 (.unselectRows 0 "all" (.point 0)) ∧
      (((oneRow.perform (.unselectRows 0 "all" (.point 0))).1.table 0).extractSelection
        (oneRow.perform (.unselectRows 0 "all" (.point 0))).1.heap .int "all" .columnMajor 1 #[0]) =
          .ok (#[10], .success) ∧
      ∀ rows cols : List Nat, 0 ∉ rows →
        ¬ ((oneRow.perform (.unselectRows 0 "all" (.point 0))).1.table 0).Extracted
          (oneRow.perform (.unselectRows 0 "all" (.point 0))).1.heap .int rows cols .columnMajor 1
          #[0] #[10] := by
  have hr : oneRow.Reachable := Reachable.empty.run _
  refine ⟨hr, by decide +kernel, by decide +kernel, ⟨rfl, rfl, Interval.mem_point.2 rfl⟩,
    by decide +kernel, fun rows cols hrow hextracted => ?_⟩
  have hc := (hr.perform (.unselectRows 0 "all" (.point 0))).consistent 0
  match rows, cols with
  | [], _ =>
    have hkept := hextracted.kept 0 (by simp)
    exact absurd hkept (by decide)
  | _, [] =>
    have hkept := hextracted.kept 0 (by simp)
    exact absurd hkept (by decide)
  | row :: _, col :: _ =>
    obtain ⟨value, hget, -⟩ := hextracted.copied 0 0 row col rfl rfl
    obtain ⟨place, hplace, -⟩ := bind_eq_ok_iff.1 hget
    obtain ⟨-, hlt, -⟩ := hc.located_of_ok hplace
    have hone : ((oneRow.perform (.unselectRows 0 "all" (.point 0))).1.table 0).rows = 1 := by
      decide +kernel
    have hzero : row = 0 := by omega
    exact hrow (by simp [hzero])

end Catalog

end TypedTable
