import TypedTable.Proofs.Table.Growing
import TypedTable.Table.Labels
import TypedTable.Table.Select

/-!
# Labels and selections leave the cells alone

What is said about rows and columns changes neither the blocks nor the chains, so a consistent table
stays consistent, and so does what a refused selection leaves.
-/

set_option autoImplicit false

namespace TypedTable.Table

theorem selectSlice_pending {table : Table} {pending : PendingRows} {key : String}
    {rows cols : Interval} (hp : table.pending = some pending) :
    table.selectSlice key rows cols = .error ⟨.missingBlock pending.nextCol, table⟩ := by
  rw [selectSlice, checkComplete, hp]
  rfl

theorem rows_dropSelection (table : Table) (key : String) :
    (table.dropSelection key).1.rows = table.rows := by
  unfold dropSelection
  split <;> rfl

variable {heap : Heap} {table later : Table} {key : String}

theorem find?_withSelection (table : Table) (key other : String) (selection : Selection) :
    (table.withSelection key selection).selections.find? other =
      if other = key then some selection else table.selections.find? other := by
  split
  next h => rw [h, withSelection, Keyed.find?_put_self]
  next h => rw [withSelection, Keyed.find?_put_of_ne _ _ h]

theorem find?_restoreSelection (table : Table) (key other : String)
    (previous : Option Selection) :
    (table.restoreSelection key previous).selections.find? other =
      if other = key then previous else table.selections.find? other := by
  cases previous with
  | some selection => exact table.find?_withSelection key other selection
  | none =>
    split
    next h => rw [h, restoreSelection, Keyed.find?_erase_self]
    next h => rw [restoreSelection, Keyed.find?_erase_of_ne _ h]

theorem restoreSelection_eq (table : Table) (key : String) (previous : Option Selection) :
    table.restoreSelection key previous =
      { table with selections := (table.restoreSelection key previous).selections } := by
  cases previous <;> rfl

theorem selectRows_eq_ok {rows : Interval} (hok : table.selectRows key rows = .ok later) :
    table.pending = none ∧ rows.upper < table.rows ∧
      later = table.withSelection key { table.selections.findOrNew key with
        rows := (table.selections.findOrNew key).rows.insert rows } := by
  obtain ⟨u, hcomplete, hok⟩ := refuse_bind_eq_ok_iff.1 hok
  obtain ⟨v, hrow, hok⟩ := refuse_bind_eq_ok_iff.1 hok
  cases hok
  exact ⟨checkComplete_eq_ok.1 hcomplete, require_eq_ok.1 hrow, rfl⟩

theorem leaves_label {name : String} {col : Nat} :
    Leaves table (table.label name col) :=
  .check fun _ _ => .check fun _ _ => .ok _

theorem leaves_selectRows {rows : Interval} :
    Leaves table (table.selectRows key rows) :=
  .check fun _ _ => .check fun _ _ => .ok _

theorem leaves_selectCols {cols : Interval} :
    Leaves table (table.selectCols key cols) :=
  .check fun _ _ => .check fun _ _ => .ok _

theorem leaves_unselectRows {rows : Interval} :
    Leaves table (table.unselectRows key rows) := by
  refine .check fun _ _ => ?_
  split
  · exact .ok _
  · exact .ok _

theorem leaves_unselectCols {cols : Interval} :
    Leaves table (table.unselectCols key cols) := by
  refine .check fun _ _ => ?_
  split
  · exact .ok _
  · exact .ok _

theorem leaves_selectNonMissing {fullRows : Bool} :
    Leaves table (table.selectNonMissing heap key fullRows) :=
  .check fun _ _ => .check fun _ _ => .check fun _ _ => .check fun _ _ => .check fun _ _ => .ok _

/-- What a refused selection of a rectangle has inserted is taken back. -/
theorem selectSlice_refused_eq {rows cols : Interval} {refused : Refused Table}
    (he : table.selectSlice key rows cols = .error refused) :
    ∃ selections : Selections, refused.left = { table with selections := selections } ∧
      ∀ other, selections.find? other = table.selections.find? other := by
  rcases refuse_bind_eq_error_iff.1 he with ⟨fault, -, rfl⟩ | ⟨u, -, he⟩
  · exact ⟨table.selections, rfl, fun _ => rfl⟩
  · obtain ⟨half, hhalf, rfl⟩ := mapError_eq_error_iff.1 he
    dsimp only
    rcases bind_eq_error_iff.1 hhalf with hrows | ⟨added, hadded, hcols⟩
    · rw [leaves_selectRows half hrows]
      refine ⟨_, table.restoreSelection_eq key _, fun other => ?_⟩
      rw [find?_restoreSelection]
      split
      next h => rw [h]
      next => rfl
    · obtain ⟨-, -, rfl⟩ := selectRows_eq_ok hadded
      rw [leaves_selectCols half hcols]
      refine ⟨_, restoreSelection_eq _ key _, fun other => ?_⟩
      rw [find?_restoreSelection]
      split
      next h => rw [h]
      next h => rw [find?_withSelection, if_neg h]

theorem selectCols_eq_ok {cols : Interval} (hok : table.selectCols key cols = .ok later) :
    table.pending = none ∧ cols.upper < table.cols ∧
      later = table.withSelection key { table.selections.findOrNew key with
        cols := (table.selections.findOrNew key).cols.insert cols } := by
  obtain ⟨u, hcomplete, hok⟩ := refuse_bind_eq_ok_iff.1 hok
  obtain ⟨v, hcol, hok⟩ := refuse_bind_eq_ok_iff.1 hok
  cases hok
  exact ⟨checkComplete_eq_ok.1 hcomplete, require_eq_ok.1 hcol, rfl⟩

def Annotates (table later : Table) : Prop :=
  ∃ (labels : Labels) (selections : Selections),
    (table.labels.Matched table.cols → labels.Matched table.cols) ∧
      later = { table with labels := labels, selections := selections }

namespace Annotates

theorem refl (table : Table) : table.Annotates table := ⟨_, _, id, rfl⟩

theorem trans {last : Table} (h : table.Annotates later) (hl : later.Annotates last) :
    table.Annotates last := by
  obtain ⟨labels, selections, hmatched, rfl⟩ := h
  obtain ⟨labels', selections', hmatched', rfl⟩ := hl
  exact ⟨labels', selections', hmatched' ∘ hmatched, rfl⟩

theorem withSelections (table : Table) (selections : Selections) :
    table.Annotates { table with selections := selections } := ⟨_, selections, id, rfl⟩

theorem label {name : String} {col : Nat} (hok : table.label name col = .ok later) :
    table.Annotates later := by
  obtain ⟨u, -, hok⟩ := refuse_bind_eq_ok_iff.1 hok
  obtain ⟨v, hcol, hok⟩ := refuse_bind_eq_ok_iff.1 hok
  cases hok
  exact ⟨_, _, fun hl => hl.attach name (require_eq_ok.1 hcol), rfl⟩

theorem selectRows {rows : Interval} (hok : table.selectRows key rows = .ok later) :
    table.Annotates later := by
  obtain ⟨-, -, rfl⟩ := selectRows_eq_ok hok
  exact .withSelections table _

theorem selectCols {cols : Interval} (hok : table.selectCols key cols = .ok later) :
    table.Annotates later := by
  obtain ⟨-, -, rfl⟩ := selectCols_eq_ok hok
  exact .withSelections table _

theorem selectSlice {rows cols : Interval} (hok : table.selectSlice key rows cols = .ok later) :
    table.Annotates later := by
  obtain ⟨u, -, hok⟩ := refuse_bind_eq_ok_iff.1 hok
  obtain ⟨added, hadded, hok⟩ := bind_eq_ok_iff.1 (within_eq_ok_iff.1 hok)
  exact (selectRows hadded).trans (selectCols hok)

theorem selectSlice_refused {rows cols : Interval} {refused : Refused Table}
    (he : table.selectSlice key rows cols = .error refused) : table.Annotates refused.left := by
  obtain ⟨selections, hleft, -⟩ := selectSlice_refused_eq he
  exact hleft ▸ .withSelections table selections

theorem unselectRows {rows : Interval} {status : Status}
    (hok : table.unselectRows key rows = .ok (later, status)) : table.Annotates later := by
  obtain ⟨u, -, hok⟩ := refuse_bind_eq_ok_iff.1 hok
  split at hok
  · cases hok
    exact .withSelections table _
  · cases hok
    exact .refl table

theorem unselectCols {cols : Interval} {status : Status}
    (hok : table.unselectCols key cols = .ok (later, status)) : table.Annotates later := by
  obtain ⟨u, -, hok⟩ := refuse_bind_eq_ok_iff.1 hok
  split at hok
  · cases hok
    exact .withSelections table _
  · cases hok
    exact .refl table

theorem dropSelection (table : Table) (key : String) :
    table.Annotates (table.dropSelection key).1 := by
  unfold Table.dropSelection
  split
  · exact .withSelections table _
  · exact .refl table

theorem selectNonMissing {fullRows : Bool}
    (hok : table.selectNonMissing heap key fullRows = .ok later) : table.Annotates later := by
  obtain ⟨u, -, hok⟩ := refuse_bind_eq_ok_iff.1 hok
  obtain ⟨allRows, -, hok⟩ := refuse_bind_eq_ok_iff.1 hok
  obtain ⟨allCols, -, hok⟩ := refuse_bind_eq_ok_iff.1 hok
  obtain ⟨valid, -, hok⟩ := refuse_bind_eq_ok_iff.1 hok
  obtain ⟨rows, -, hok⟩ := refuse_bind_eq_ok_iff.1 hok
  cases hok
  exact .withSelections table _

end Annotates

namespace Consistent

theorem annotate (h : table.Consistent heap) (ha : table.Annotates later) :
    later.Consistent heap := by
  obtain ⟨labels, selections, hmatched, rfl⟩ := ha
  exact { h with labels := hmatched h.labels }

theorem label (h : table.Consistent heap) {name : String} {col : Nat}
    (hok : table.label name col = .ok later) : later.Consistent heap :=
  h.annotate (.label hok)

theorem selectRows (h : table.Consistent heap) {rows : Interval}
    (hok : table.selectRows key rows = .ok later) : later.Consistent heap :=
  h.annotate (.selectRows hok)

end Consistent

end TypedTable.Table
