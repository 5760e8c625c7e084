import TypedTable.Proofs.Invariants

/-!
# Refused operations

An operation that is refused leaves the heap and every table as they were: each question about a
table has the answer that it had before. A refused load empties its table, which had no columns, and
a reachable table without columns is the empty table.
-/

set_option autoImplicit false

namespace TypedTable

namespace Table

structure Alike (heap : Heap) (table later : Table) : Prop where
  rows : later.rows = table.rows
  cols : later.cols = table.cols
  pending : later.pending = table.pending
  columnType (col : Nat) : later.columnType col = table.columnType col
  chainLength (col : Nat) : later.chainLength col = table.chainLength col
  get (type : ScalarType) (row col : Nat) :
    later.get heap type row col = table.get heap type row col
  columnLabel (col : Nat) : later.columnLabel col = table.columnLabel col
  labeledColumn (name : String) : later.labeledColumn name = table.labeledColumn name
  selection (key : String) : later.selections.find? key = table.selections.find? key

variable {heap : Heap} {table later : Table} {key : String}

theorem Alike.of_selections {selections : Selections}
    (h : ∀ key, selections.find? key = table.selections.find? key) :
    table.Alike heap { table with selections := selections } where
  rows := rfl
  cols := rfl
  pending := rfl
  columnType _ := rfl
  chainLength _ := rfl
  get _ _ _ := rfl
  columnLabel _ := rfl
  labeledColumn _ := rfl
  selection := h

theorem Alike.refl (heap : Heap) (table : Table) : table.Alike heap table :=
  .of_selections fun _ => rfl

theorem selectSlice_refused_alike (heap : Heap) {rows cols : Interval} {refused : Refused Table}
    (he : table.selectSlice key rows cols = .error refused) : table.Alike heap refused.left := by
  obtain ⟨selections, hleft, hsame⟩ := selectSlice_refused_eq he
  exact hleft ▸ .of_selections hsame

def EmptyOrWide (table : Table) : Prop := table = empty ∨ 0 < table.cols

namespace EmptyOrWide

theorem eq_empty (h : table.EmptyOrWide) (he : table.isEmpty = true) : table = empty := by
  rcases h with h | h
  · exact h
  · have hzero : table.cols = 0 := eq_of_beq he
    omega

theorem of_empty (h : empty.Change heap later) : later.EmptyOrWide := by
  have hc := consistent_empty heap
  cases h with
  | appendColumns hok => exact .inr (hc.wide_appendColumns hok)
  | appendRows hok => exact .inr (hc.wide_appendRows hok)
  | merged hcols hrows => exact .inr (Nat.lt_of_lt_of_le hcols (Nat.le_add_left _ _))
  | set hok | label hok | selectRows hok | selectCols hok | selectNonMissing hok => cases hok
  | restored hs => exact .inl (congrArg (fun s => { empty with selections := s })
      (Keyed.eq_empty_of_find? hs))
  | unselectRows hok | unselectCols hok =>
    cases hok
    exact .inl rfl
  | dropSelection key => exact .inl rfl

theorem kept : Kept EmptyOrWide where
  empty := .inl rfl
  change hc h hchange := by
    rcases h with rfl | hw
    · exact of_empty hchange
    · exact .inr (Nat.lt_of_lt_of_le hw (hchange.grows hc).2)

end EmptyOrWide

end Table

namespace Csv

open Table (EmptyOrWide)

variable {table : Table}

theorem load_refused_eq (hw : table.EmptyOrWide) {s : Settings}
    {input : Except ReadFault Feed} {halted : Halted Table}
    (he : load table s input = .error halted) : halted.left = table := by
  unfold load at he
  split at he
  · cases he
    rfl
  · split at he
    · cases he
      rfl
    next hempty =>
      obtain ⟨fault, -, rfl⟩ := mapError_eq_error_iff.1 he
      have htable : table.isEmpty = true := by simpa using hempty
      exact (hw.eq_empty htable).symm

end Csv

namespace Catalog

variable {catalog : Catalog} {number : Nat}

theorem Reachable.emptyOrWide (h : catalog.Reachable) (number : Nat) :
    (catalog.table number).EmptyOrWide :=
  h.kept Table.EmptyOrWide.kept number

structure Alike (catalog later : Catalog) : Prop where
  heap : later.heap = catalog.heap
  table (number : Nat) : (catalog.table number).Alike catalog.heap (later.table number)

namespace Alike

theorem refl (catalog : Catalog) : catalog.Alike catalog :=
  ⟨rfl, fun number => .refl catalog.heap (catalog.table number)⟩

theorem put {table : Table} (h : (catalog.table number).Alike catalog.heap table) :
    catalog.Alike (catalog.put number table) := by
  refine ⟨rfl, fun other => ?_⟩
  rw [table_put]
  split
  next he => exact he ▸ h
  next => exact .refl catalog.heap _

theorem replace {change : Except (Refused Table) Table} {refusal : Refusal}
    (hl : ∀ refused, change = .error refused →
      (catalog.table number).Alike catalog.heap refused.left)
    (hr : (catalog.replace number change).2 = .error refusal) :
    catalog.Alike (catalog.replace number change).1 := by
  cases change with
  | ok table => cases hr
  | error refused => exact put (hl refused rfl)

theorem replaceWith {change : Except (Refused Table) (Table × Status)} {refusal : Refusal}
    (hl : Leaves (catalog.table number) change)
    (hr : (catalog.replaceWith number change).2 = .error refusal) :
    catalog.Alike (catalog.replaceWith number change).1 := by
  cases change with
  | ok result => cases hr
  | error refused => exact put (hl.holds (.refl catalog.heap _) refused rfl)

end Alike

/-- A refused operation leaves the buffers and all tables as they were: their dimensions, pending
rows, types, chains, cells, labels and selections. -/
theorem Reachable.perform_refused_alike (h : catalog.Reachable) {operation : Operation}
    {refusal : Refusal} (hr : (catalog.perform operation).2 = .error refusal) :
    catalog.Alike (catalog.perform operation).1 := by
  have hc := h.consistent
  have hleft {number : Nat} {change : Except (Refused Table) Table}
      (hl : Leaves (catalog.table number) change) :
      ∀ refused, change = .error refused →
        (catalog.table number).Alike catalog.heap refused.left :=
    hl.holds (.refl catalog.heap (catalog.table number))
  cases operation with
  | writeBuffer => cases hr
  | appendColumns => exact .replace (hleft Table.leaves_appendColumns) hr
  | appendRows => exact .replace (hleft Table.leaves_appendRows) hr
  | label => exact .replace (hleft Table.leaves_label) hr
  | selectRows => exact .replace (hleft Table.leaves_selectRows) hr
  | selectCols => exact .replace (hleft Table.leaves_selectCols) hr
  | selectSlice =>
    exact .replace (fun _ he => Table.selectSlice_refused_alike catalog.heap he) hr
  | selectNonMissing => exact .replace (hleft Table.leaves_selectNonMissing) hr
  | unselectRows => exact .replaceWith Table.leaves_unselectRows hr
  | unselectCols => exact .replaceWith Table.leaves_unselectCols hr
  | dropSelection => cases hr
  | merge number other =>
    unfold Catalog.perform at hr ⊢
    dsimp only at hr ⊢
    rcases (hc number).merge_cases (hc other) with
        ⟨fault, -, hmerge⟩ | ⟨-, -, ⟨-, hmerge⟩ | ⟨-, -, hmerge⟩⟩
    · -- both tables are put back
      rw [hmerge]
      refine ⟨rfl, fun third => ?_⟩
      dsimp only
      rw [table_put]
      split
      next he => exact he ▸ .refl catalog.heap _
      next =>
        rw [table_put_same]
        exact .refl catalog.heap _
    · rw [hmerge] at hr
      cases hr
    · rw [hmerge] at hr
      cases hr
  | set number type row col value =>
    unfold Catalog.perform at hr ⊢
    dsimp only at hr ⊢
    split at hr
    next => cases hr
    next refused he =>
      rw [Table.leaves_set refused he]
      exact .put (.refl catalog.heap _)
  | load number settings input =>
    unfold Catalog.perform at hr ⊢
    dsimp only at hr ⊢
    split at hr
    next => cases hr
    next halted he =>
      refine .put ?_
      rw [Csv.load_refused_eq (h.emptyOrWide number) he]
      exact .refl catalog.heap _

/-- The first half of a rectangle is selected under a new name before the second half turns out to
be outside of the table. -/
theorem perform_refused_alike_slice :
    (twoColumns.perform (.selectSlice 0 "part" (.point 0) (.point 2))).2 =
        .error (.table (.indexOutOfBounds 2 .columns 2)) ∧
      twoColumns.Alike (twoColumns.perform (.selectSlice 0 "part" (.point 0) (.point 2))).1 := by
  have hr : twoColumns.Reachable := Reachable.empty.run _
  have hrefused : (twoColumns.perform (.selectSlice 0 "part" (.point 0) (.point 2))).2 =
      .error (.table (.indexOutOfBounds 2 .columns 2)) := by decide +kernel
  exact ⟨hrefused, Reachable.perform_refused_alike hr hrefused⟩

end Catalog

end TypedTable
