import TypedTable.Proofs.Interval.Gapped
import TypedTable.Proofs.Invariants
import TypedTable.Proofs.Table.Missing

/-!
# Selections stay within their tables

A selection only receives rows and columns that its table has, and a table loses neither as long as
it has selections. So no call puts a selected row or column out of range.
-/

set_option autoImplicit false

namespace TypedTable

structure Selection.Fits (selection : Selection) (rows cols : Nat) : Prop where
  rows : selection.rows.Within rows
  cols : selection.cols.Within cols

theorem Selection.fits_new (rows cols : Nat) : Selection.Fits {} rows cols where
  rows := IndexSet.within_empty rows
  cols := IndexSet.within_empty cols

theorem Selection.Fits.mono {selection : Selection} {rows cols rows' cols' : Nat}
    (h : selection.Fits rows cols) (hr : rows ≤ rows') (hc : cols ≤ cols') :
    selection.Fits rows' cols' where
  rows := h.rows.mono hr
  cols := h.cols.mono hc

namespace Table

def SelectionsFit (table : Table) : Prop :=
  ∀ key selection, table.selections.find? key = some selection →
    selection.Fits table.rows table.cols

namespace SelectionsFit

variable {heap : Heap} {table later : Table} {key : String}

theorem findOrNew (h : table.SelectionsFit) (key : String) :
    (table.selections.findOrNew key).Fits table.rows table.cols := by
  rw [Selections.findOrNew]
  cases hfind : table.selections.find? key with
  | some selection => exact h key selection hfind
  | none => exact Selection.fits_new _ _

theorem withSelection (h : table.SelectionsFit) {selection : Selection}
    (hs : selection.Fits table.rows table.cols) : (table.withSelection key selection).SelectionsFit := by
  intro other found hfind
  rw [find?_withSelection] at hfind
  split at hfind
  next =>
    obtain rfl := Option.some.inj hfind
    exact hs
  next => exact h other found hfind

theorem of_grown (h : table.SelectionsFit) (hs : later.selections = table.selections)
    (hg : table.rows ≤ later.rows ∧ table.cols ≤ later.cols) : later.SelectionsFit :=
  fun other found hfind => (h other found (hs ▸ hfind)).mono hg.1 hg.2

theorem selectRows (h : table.SelectionsFit) {rows : Interval}
    (hok : table.selectRows key rows = .ok later) : later.SelectionsFit := by
  obtain ⟨-, hr, rfl⟩ := selectRows_eq_ok hok
  have hf := h.findOrNew key
  exact h.withSelection ⟨hf.rows.insert hr, hf.cols⟩

theorem selectCols (h : table.SelectionsFit) {cols : Interval}
    (hok : table.selectCols key cols = .ok later) : later.SelectionsFit := by
  obtain ⟨-, hc, rfl⟩ := selectCols_eq_ok hok
  have hf := h.findOrNew key
  exact h.withSelection ⟨hf.rows, hf.cols.insert hc⟩

theorem unselectRows (h : table.SelectionsFit) {rows : Interval} {status : Status}
    (hok : table.unselectRows key rows = .ok (later, status)) : later.SelectionsFit := by
  obtain ⟨u, -, hok⟩ := refuse_bind_eq_ok_iff.1 hok
  split at hok
  next selection hfind =>
    cases hok
    have hf := h key selection hfind
    exact h.withSelection ⟨hf.rows.erase rows, hf.cols⟩
  next =>
    cases hok
    exact h

theorem unselectCols (h : table.SelectionsFit) {cols : Interval} {status : Status}
    (hok : table.unselectCols key cols = .ok (later, status)) : later.SelectionsFit := by
  obtain ⟨u, -, hok⟩ := refuse_bind_eq_ok_iff.1 hok
  split at hok
  next selection hfind =>
    cases hok
    have hf := h key selection hfind
    exact h.withSelection ⟨hf.rows, hf.cols.erase cols⟩
  next =>
    cases hok
    exact h

theorem dropSelection (h : table.SelectionsFit) (key : String) :
    (table.dropSelection key).1.SelectionsFit := by
  unfold Table.dropSelection
  split
  · intro other selection hfind
    by_cases hkey : other = key
    · subst hkey
      rw [Keyed.find?_erase_self] at hfind
      cases hfind
    · exact h other selection ((Keyed.find?_erase_of_ne _ hkey).symm.trans hfind)
  · exact h

theorem selectNonMissing (h : table.SelectionsFit) {fullRows : Bool}
    (hok : table.selectNonMissing heap key fullRows = .ok later) : later.SelectionsFit := by
  obtain ⟨u, -, hok⟩ := refuse_bind_eq_ok_iff.1 hok
  obtain ⟨allRows, hrows, hok⟩ := refuse_bind_eq_ok_iff.1 hok
  obtain ⟨allCols, -, hok⟩ := refuse_bind_eq_ok_iff.1 hok
  obtain ⟨valid, -, hok⟩ := refuse_bind_eq_ok_iff.1 hok
  obtain ⟨rows, hruns, hok⟩ := refuse_bind_eq_ok_iff.1 hok
  cases hok
  obtain ⟨runs, hall, -⟩ := exists_cleared valid _
  obtain rfl := Except.ok.inj (hruns.symm.trans hall)
  obtain ⟨hpos, -, hupper⟩ := Interval.ofSize_eq_ok (allRows_eq_ok_iff.1 hrows)
  have hf := h.findOrNew key
  refine h.withSelection ⟨.foldl_erase ?_ _, hf.cols⟩
  split
  next => exact hf.rows.insert (by omega)
  next => exact hf.rows

theorem kept : Kept SelectionsFit where
  empty key selection hfind := by cases hfind
  change {heap table later} hc h hchange := by
    have hgrows := hchange.grows hc
    cases hchange with
    | appendColumns hok => exact h.of_grown (hc.selections_appendColumns hok) hgrows
    | appendRows hok => exact h.of_grown (hc.selections_appendRows hok) hgrows
    | merged hcols hrows => exact h.of_grown rfl hgrows
    | set hok => exact h.of_grown (hc.selections_set hok) hgrows
    | label hok => exact h.of_grown (selections_label hok) hgrows
    | selectRows hok => exact h.selectRows hok
    | selectCols hok => exact h.selectCols hok
    | restored hs => exact fun key selection hfind => h key selection (hs key ▸ hfind)
    | unselectRows hok => exact h.unselectRows hok
    | unselectCols hok => exact h.unselectCols hok
    | dropSelection key => exact h.dropSelection key
    | selectNonMissing hok => exact h.selectNonMissing hok

end SelectionsFit

end Table

/-- The selections of a reachable table fit it, whatever came after they were made. -/
theorem Catalog.Reachable.selectionsFit {catalog : Catalog} (h : catalog.Reachable) (number : Nat) :
    (catalog.table number).SelectionsFit :=
  h.kept Table.SelectionsFit.kept number

end TypedTable
