import TypedTable.Proofs.Sheet.Representation

/-!
# Edits of tables are edits of sheets

A run of operations that change cells, beginning with empty tables, has the effect that it has on
sheets. What is then read from a complete table is what the sheet has.
-/

set_option autoImplicit false

namespace TypedTable

/-- Whether an operation changes cells, with an input that belongs to the table from then on. -/
def Operation.isEdit : Operation → Bool
  | .appendColumns _ _ _ _ _ storage => decide (storage.ownership ≠ .borrowed)
  | .appendRows _ _ _ _ _ storage => decide (storage.ownership ≠ .borrowed)
  | .merge .. => true
  | .set .. => true
  | _ => false

namespace Catalog

def Represents (catalog : Catalog) (sheets : Sheets) : Prop :=
  ∀ number, (catalog.table number).Represents catalog.heap (sheets number)

/-- All operations are edits and are carried out, one after the other. -/
def CarriesOut : Catalog → List Operation → Prop
  | _, [] => True
  | catalog, operation :: later =>
    operation.isEdit = true ∧ (catalog.perform operation).2 = .ok .success ∧
      CarriesOut (catalog.perform operation).1 later

instance decidableCarriesOut :
    (catalog : Catalog) → (operations : List Operation) → Decidable (CarriesOut catalog operations)
  | _, [] => isTrue trivial
  | catalog, operation :: later =>
    have := decidableCarriesOut (catalog.perform operation).1 later
    inferInstanceAs (Decidable (operation.isEdit = true ∧
      (catalog.perform operation).2 = .ok .success ∧
        CarriesOut (catalog.perform operation).1 later))

variable {catalog : Catalog} {sheets : Sheets}

namespace Represents

theorem empty : Catalog.empty.Represents Sheets.empty := fun _ => Table.Represents.empty {}

theorem put (h : catalog.Represents sheets) {number : Nat} {table : Table} {sheet : Sheet}
    (ht : table.Represents catalog.heap sheet) :
    (catalog.put number table).Represents (sheets.put number sheet) := by
  intro other
  rw [table_put, Sheets.put]
  split
  · exact ht
  · exact h other

theorem replace (h : catalog.Represents sheets) {number : Nat}
    {change : Except (Refused Table) Table} {sheet : Sheet} {status : Status}
    (hc : ∀ later, change = .ok later → later.Represents catalog.heap sheet)
    (hok : (catalog.replace number change).2 = .ok status) :
    (catalog.replace number change).1.Represents (sheets.put number sheet) := by
  cases change with
  | ok later => exact h.put (hc later rfl)
  | error refused => cases hok

/-- An edit that is carried out has the same effect on the sheets. -/
theorem perform (h : catalog.Represents sheets) {operation : Operation}
    (he : operation.isEdit = true) (hok : (catalog.perform operation).2 = .ok .success) :
    (catalog.perform operation).1.Represents (sheets.perform operation) := by
  cases operation with
  | appendColumns number type rows cols order storage =>
    exact h.replace (fun later hlater => (h number).appendColumns (of_decide_eq_true he) hlater) hok
  | appendRows number type rows cols order storage =>
    exact h.replace (fun later hlater => (h number).appendRows (of_decide_eq_true he) hlater) hok
  | merge number other =>
    unfold Catalog.perform at hok ⊢
    dsimp only at hok ⊢
    cases hmerge : (catalog.table number).merge (catalog.table other) with
    | ok result =>
      obtain ⟨hmerged, hrest⟩ := (h number).merge (h other) hmerge
      exact (h.put hmerged).put hrest
    | error refused =>
      rw [hmerge] at hok
      cases hok
  | set number type row col value =>
    unfold Catalog.perform at hok ⊢
    dsimp only at hok ⊢
    cases hset : (catalog.table number).set catalog.heap type row col value with
    | ok result =>
      obtain ⟨hheap, hwritten⟩ := (h number).set hset
      dsimp only
      rw [hheap]
      exact h.put hwritten
    | error refused =>
      rw [hset] at hok
      cases hok
  | writeBuffer | label | selectRows | selectCols | selectSlice | unselectRows | unselectCols
  | dropSelection | selectNonMissing | load => cases he

theorem run (h : catalog.Represents sheets) {operations : List Operation}
    (hc : CarriesOut catalog operations) :
    (catalog.run operations).Represents (sheets.run operations) := by
  induction operations generalizing catalog sheets with
  | nil => exact h
  | cons operation later ih =>
    obtain ⟨he, hok, hlater⟩ := hc
    exact ih (h.perform he hok) hlater

end Represents

/-- What is read from a complete table after any edits is what its sheet has: a cell at the type of
its column, and nothing at any other. -/
theorem get_run {operations : List Operation} (h : CarriesOut Catalog.empty operations)
    {number : Nat} (hp : ((Catalog.empty.run operations).table number).pending = none) :
    ((Catalog.empty.run operations).table number).rows = (Sheets.empty.run operations number).rows ∧
    ((Catalog.empty.run operations).table number).cols =
      (Sheets.empty.run operations number).columns.length ∧
    ∀ (row col : Nat) (column : Column), row < (Sheets.empty.run operations number).rows →
      (Sheets.empty.run operations number).columns[col]? = some column →
      ∃ value, column.values[row]? = some value ∧
        ((Catalog.empty.run operations).table number).get (Catalog.empty.run operations).heap
          column.type row col = .ok value ∧
        ∀ type, type ≠ column.type →
          ((Catalog.empty.run operations).table number).get (Catalog.empty.run operations).heap
            type row col = .error (.typeMismatch (.block column.type type)) := by
  have hr := Represents.empty.run h number
  refine ⟨hr.rows_eq hp, hr.cols, fun row col column hrow hcol => ?_⟩
  have hlt := hr.cols ▸ (List.getElem?_eq_some_iff.1 hcol).1
  obtain ⟨cell, hcell, hget, hother⟩ := hr.consistent.get_eq hp (hr.rows_eq hp ▸ hrow) hlt
  rw [hr.column_eq hp hcol, Column.cells, List.getElem?_map] at hcell
  obtain ⟨value, hvalue, rfl⟩ := Option.map_eq_some_iff.1 hcell
  exact ⟨value, hvalue, hget, hother⟩

def mixedEdits : List Operation :=
  [.appendColumns 0 .int 1 2 .rowMajor (.copied #[1, 2]),
    .appendColumns 1 .str 1 1 .columnMajor (.adopted #["a"]),
    .merge 0 1,
    .appendRows 0 .int 2 2 .columnMajor (.copied #[3, 4, 5, 6]),
    .appendRows 0 .str 2 1 .rowMajor (.adopted #["b", "c"]),
    .set 0 .str 1 2 "B"]

theorem get_run_mixedEdits :
    ((Catalog.empty.run mixedEdits).table 0).get (Catalog.empty.run mixedEdits).heap .str 1 2 =
        .ok "B" ∧
      ((Catalog.empty.run mixedEdits).table 0).get (Catalog.empty.run mixedEdits).heap .int 1 2 =
        .error (.typeMismatch (.block .str .int)) := by
  have hc : CarriesOut Catalog.empty mixedEdits := by decide +kernel
  have hp : ((Catalog.empty.run mixedEdits).table 0).pending = none := by decide +kernel
  have hcol : (Sheets.empty.run mixedEdits 0).columns[2]? = some ⟨.str, ["a", "B", "c"]⟩ := rfl
  obtain ⟨-, -, hget⟩ := get_run hc hp
  obtain ⟨value, hvalue, hread, hother⟩ := hget 1 2 _ (by decide) hcol
  obtain rfl : "B" = value := Option.some.inj hvalue
  exact ⟨hread, hother .int (by decide)⟩

end Catalog

end TypedTable
