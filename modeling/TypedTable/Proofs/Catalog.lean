import TypedTable.Catalog
import TypedTable.Proofs.Csv.Loading

/-!
# Reachable catalogs

All tables of a catalog are consistent, whatever calls led to it: every operation, carried out or
refused, keeps the consistency of all tables. So no operation and no question finds a broken table.
-/

set_option autoImplicit false

namespace TypedTable.Catalog

/-- The catalogs that calls lead to, in any order and with any results. -/
inductive Reachable : Catalog → Prop
  | empty : Reachable Catalog.empty
  | allocate {catalog : Catalog} (h : Reachable catalog) {type : ScalarType}
    (cells : Array type.Carrier) : Reachable (catalog.allocate cells).2
  | perform {catalog : Catalog} (h : Reachable catalog) (operation : Operation) :
    Reachable (catalog.perform operation).1

def Consistent (catalog : Catalog) : Prop :=
  ∀ number, (catalog.table number).Consistent catalog.heap

theorem table_put (catalog : Catalog) (number : Nat) (table : Table) (other : Nat) :
    (catalog.put number table).table other =
      if other = number then table else catalog.table other := by
  unfold Catalog.table put
  split
  next h => rw [h, Keyed.find?_put_self, Option.getD_some]
  next h => rw [Keyed.find?_put_of_ne _ _ h]

@[simp] theorem table_put_self (catalog : Catalog) (number : Nat) (table : Table) :
    (catalog.put number table).table number = table := by
  rw [table_put, if_pos rfl]

@[simp] theorem table_put_same (catalog : Catalog) (number other : Nat) :
    (catalog.put number (catalog.table number)).table other = catalog.table other := by
  rw [table_put]
  split
  next h => rw [h]
  next => rfl

theorem table_put_or (catalog : Catalog) (number : Nat) (table : Table) (other : Nat) :
    (catalog.put number table).table other = catalog.table other ∨
      other = number ∧ (catalog.put number table).table other = table := by
  rw [table_put]
  split
  next h => exact .inr ⟨h, rfl⟩
  next => exact .inl rfl

/-- A change that is refused without a trace leaves every table as it was. -/
theorem table_replace (catalog : Catalog) (number : Nat) {change : Except (Refused Table) Table}
    (hl : Leaves (catalog.table number) change) (other : Nat) :
    (catalog.replace number change).1.table other = catalog.table other ∨
      ∃ table, other = number ∧ change = .ok table ∧
        (catalog.replace number change).1.table other = table := by
  cases change with
  | ok table =>
    rcases catalog.table_put_or number table other with hsame | ⟨hnumber, hput⟩
    · exact .inl hsame
    · exact .inr ⟨table, hnumber, rfl, hput⟩
  | error refused =>
    rw [replace, hl refused rfl]
    exact .inl (table_put_same catalog number other)

theorem table_replaceWith (catalog : Catalog) (number : Nat)
    {change : Except (Refused Table) (Table × Status)} (hl : Leaves (catalog.table number) change)
    (other : Nat) :
    (catalog.replaceWith number change).1.table other = catalog.table other ∨
      ∃ result, other = number ∧ change = .ok result ∧
        (catalog.replaceWith number change).1.table other = result.1 := by
  cases change with
  | ok result =>
    rcases catalog.table_put_or number result.1 other with hsame | ⟨hnumber, hput⟩
    · exact .inl hsame
    · exact .inr ⟨result, hnumber, rfl, hput⟩
  | error refused =>
    rw [replaceWith, hl refused rfl]
    exact .inl (table_put_same catalog number other)

variable {catalog : Catalog} {number : Nat}

namespace Consistent

theorem put (h : catalog.Consistent) {table : Table} (ht : table.Consistent catalog.heap) :
    (catalog.put number table).Consistent := by
  intro other
  rw [table_put]
  split
  · exact ht
  · exact h other

theorem withHeap (h : catalog.Consistent) {heap : Heap} (hg : catalog.heap.GrowsTo heap) :
    ({ catalog with heap := heap } : Catalog).Consistent :=
  fun other => (h other).grow hg

theorem allocate (h : catalog.Consistent) {type : ScalarType} (cells : Array type.Carrier) :
    (catalog.allocate cells).2.Consistent :=
  h.withHeap (catalog.heap.growsTo_allocate cells)

theorem replace (h : catalog.Consistent) {change : Except (Refused Table) Table}
    (hc : ∀ table, change = .ok table → table.Consistent catalog.heap)
    (hl : ∀ refused, change = .error refused → refused.left.Consistent catalog.heap) :
    (catalog.replace number change).1.Consistent := by
  cases change with
  | ok table => exact h.put (hc table rfl)
  | error refused => exact h.put (hl refused rfl)

theorem replaceWith (h : catalog.Consistent) {change : Except (Refused Table) (Table × Status)}
    (hc : ∀ table status, change = .ok (table, status) → table.Consistent catalog.heap)
    (hl : Leaves (catalog.table number) change) :
    (catalog.replaceWith number change).1.Consistent := by
  cases change with
  | ok result => exact h.put (hc result.1 result.2 rfl)
  | error refused => exact h.put (hl.holds (h number) refused rfl)

theorem merge (h : catalog.Consistent) (number other : Nat) :
    (catalog.perform (.merge number other)).1.Consistent := by
  unfold Catalog.perform
  dsimp only
  rcases (h number).merge_cases (h other) with
      ⟨fault, -, hmerge⟩ | ⟨hp, hpo, ⟨-, hmerge⟩ | ⟨hc, hr, hmerge⟩⟩
  · rw [hmerge]
    exact (h.put (h number)).put (h other)
  · rw [hmerge]
    exact (h.put (h number)).put (h other)
  · rw [hmerge]
    exact (h.put ((h number).merged_consistent (h other) hp hpo hc hr)).put
      (Table.consistent_empty catalog.heap)

/-- Every operation keeps all tables consistent, whether it is carried out or refused. -/
theorem perform (h : catalog.Consistent) (operation : Operation) :
    (catalog.perform operation).1.Consistent := by
  cases operation with
  | writeBuffer type buffer index value =>
    exact h.withHeap (catalog.heap.growsTo_write buffer index value)
  | appendColumns number type rows cols order storage =>
    exact h.replace (fun later hok => (h number).appendColumns hok)
      (Table.leaves_appendColumns.holds (h number))
  | appendRows number type rows cols order storage =>
    exact h.replace (fun later hok => (h number).appendRows hok)
      (Table.leaves_appendRows.holds (h number))
  | merge number other => exact h.merge number other
  | set number type row col value =>
    unfold Catalog.perform
    dsimp only
    split
    next heap later hok =>
      obtain ⟨hg, hlater⟩ := (h number).set hok
      exact (h.withHeap hg).put hlater
    next refused he =>
      rw [Table.leaves_set refused he]
      exact h.put (h number)
  | label number name col =>
    exact h.replace (fun later hok => (h number).annotate (.label hok))
      (Table.leaves_label.holds (h number))
  | selectRows number key rows =>
    exact h.replace (fun later hok => (h number).annotate (.selectRows hok))
      (Table.leaves_selectRows.holds (h number))
  | selectCols number key cols =>
    exact h.replace (fun later hok => (h number).annotate (.selectCols hok))
      (Table.leaves_selectCols.holds (h number))
  | selectSlice number key rows cols =>
    exact h.replace (fun later hok => (h number).annotate (.selectSlice hok))
      fun refused he => (h number).annotate (.selectSlice_refused he)
  | unselectRows number key rows =>
    exact h.replaceWith (fun later status hok => (h number).annotate (.unselectRows hok))
      Table.leaves_unselectRows
  | unselectCols number key cols =>
    exact h.replaceWith (fun later status hok => (h number).annotate (.unselectCols hok))
      Table.leaves_unselectCols
  | dropSelection number key => exact h.put ((h number).annotate (.dropSelection _ key))
  | selectNonMissing number key fullRows =>
    exact h.replace (fun later hok => (h number).annotate (.selectNonMissing hok))
      (Table.leaves_selectNonMissing.holds (h number))
  | load number settings input =>
    unfold Catalog.perform
    dsimp only
    split
    next later status hok => exact h.put (Csv.load_consistent (h number) hok)
    next halted he => exact h.put (Csv.load_refused_consistent (h number) he)

theorem run (h : catalog.Consistent) (operations : List Operation) :
    (catalog.run operations).Consistent := by
  induction operations generalizing catalog with
  | nil => exact h
  | cons operation later ih => exact ih (h.perform operation)

theorem replace_refused {change : Except (Refused Table) Table} {refusal : Refusal}
    (hc : Warranted change) (hr : (catalog.replace number change).2 = .error refusal) :
    refusal.kind ≠ .internal := by
  cases change with
  | ok table => cases hr
  | error refused =>
    cases hr
    exact hc.kind_ne rfl

theorem replaceWith_refused {change : Except (Refused Table) (Table × Status)} {refusal : Refusal}
    (hc : Warranted change) (hr : (catalog.replaceWith number change).2 = .error refusal) :
    refusal.kind ≠ .internal := by
  cases change with
  | ok result => cases hr
  | error refused =>
    cases hr
    exact hc.kind_ne rfl

/-- No operation is refused for a fault of a table, unless it was to load an input that came with
such a fault. -/
theorem perform_refused (h : catalog.Consistent) {operation : Operation} {refusal : Refusal}
    (hr : (catalog.perform operation).2 = .error refusal) :
    refusal.kind ≠ .internal ∨
      ∃ number settings fault, operation = .load number settings (.error fault) ∧
        refusal = .read fault := by
  cases operation with
  | writeBuffer type buffer index value => cases hr
  | appendColumns number type rows cols order storage =>
    exact .inl (replace_refused (Table.warranted_appendColumns _ _ rows cols order storage) hr)
  | appendRows number type rows cols order storage =>
    exact .inl (replace_refused ((h number).warranted_appendRows rows cols order storage) hr)
  | merge number other =>
    unfold Catalog.perform at hr
    dsimp only at hr
    split at hr
    next => cases hr
    next refused he =>
      cases hr
      exact .inl ((h number).merge_fault (h other) he)
  | set number type row col value =>
    unfold Catalog.perform at hr
    dsimp only at hr
    split at hr
    next => cases hr
    next refused he =>
      cases hr
      exact .inl (((h number).warranted_set type row col value).kind_ne he)
  | label number name col => exact .inl (replace_refused (Table.warranted_label _ name col) hr)
  | selectRows number key rows =>
    exact .inl (replace_refused (Table.warranted_selectRows _ key rows) hr)
  | selectCols number key cols =>
    exact .inl (replace_refused (Table.warranted_selectCols _ key cols) hr)
  | selectSlice number key rows cols =>
    exact .inl (replace_refused (Table.warranted_selectSlice _ key rows cols) hr)
  | unselectRows number key rows =>
    exact .inl (replaceWith_refused (Table.warranted_unselectRows _ key rows) hr)
  | unselectCols number key cols =>
    exact .inl (replaceWith_refused (Table.warranted_unselectCols _ key cols) hr)
  | dropSelection number key => cases hr
  | selectNonMissing number key fullRows =>
    exact .inl (replace_refused ((h number).warranted_selectNonMissing key fullRows) hr)
  | load number settings input =>
    unfold Catalog.perform at hr
    dsimp only at hr
    split at hr
    next => cases hr
    next halted he =>
      cases hr
      cases input with
      | error fault =>
        cases he
        exact .inr ⟨number, settings, fault, rfl, rfl⟩
      | ok feed => exact .inl (Csv.load_fault he)

theorem of_replace_ok {change : Except (Refused Table) Table} {status : Status}
    (hok : (catalog.replace number change).2 = .ok status) :
    change = .ok ((catalog.replace number change).1.table number) := by
  cases change with
  | ok table => rw [Catalog.replace, table_put_self]
  | error fault => cases hok

theorem rows_appendRows_first (h : catalog.Consistent)
    (hp : (catalog.table number).pending = none) {type : ScalarType} {rows cols : Nat}
    {order : Order} {storage : Storage type} {later : Table}
    (hok : (catalog.table number).appendRows catalog.heap rows cols order storage = .ok later) :
    later.rows = (catalog.table number).rows + rows := by
  by_cases hc : 0 < (catalog.table number).cols
  · obtain ⟨dense, span, tails, -, -, -, -, -, -, hdense, rfl⟩ := (h number).appendRows_eq_ok hc hok
    obtain ⟨rfl, -, -⟩ := Dense.make_eq_ok hdense
    rw [Table.linkRows, hp]
    rfl
  · have hzero : (catalog.table number).cols = 0 := by omega
    rw [Table.Consistent.appendRows_of_no_cols hc] at hok
    obtain ⟨dense, span, -, -, -, -, hdense, rfl⟩ := (h number).appendColumns_eq_ok hok
    obtain ⟨rfl, -, -⟩ := Dense.make_eq_ok hdense
    rw [(h number).noRows hzero, Nat.zero_add]
    rfl

section Pending

variable {pending : PendingRows}

theorem replace_pending {change : Except (Refused Table) Table} {other : Nat}
    (hp : (catalog.table number).pending = some pending) (hl : Leaves (catalog.table other) change)
    (hc : ∀ table, change = .ok table → (catalog.table other).pending = none) :
    ((catalog.replace other change).1.table number).rows = (catalog.table number).rows := by
  rcases catalog.table_replace other hl number with hsame | ⟨table, rfl, hok, -⟩
  · rw [hsame]
  · simp [hc table hok] at hp

theorem replaceWith_pending {change : Except (Refused Table) (Table × Status)} {other : Nat}
    (hp : (catalog.table number).pending = some pending) (hl : Leaves (catalog.table other) change)
    (hc : ∀ result, change = .ok result → (catalog.table other).pending = none) :
    ((catalog.replaceWith other change).1.table number).rows = (catalog.table number).rows := by
  rcases catalog.table_replaceWith other hl number with hsame | ⟨result, rfl, hok, -⟩
  · rw [hsame]
  · simp [hc result hok] at hp

theorem merge_pending (h : catalog.Consistent)
    (hp : (catalog.table number).pending = some pending) (target other : Nat) :
    ((catalog.perform (.merge target other)).1.table number).rows =
      (catalog.table number).rows := by
  unfold Catalog.perform
  dsimp only
  rcases (h target).merge_cases (h other) with ⟨fault, -, hmerge⟩ | ⟨ht, ho, hcases⟩
  · rw [hmerge]
    dsimp only
    rw [table_put]
    split
    next he => rw [he]
    next => rw [table_put_same]
  · have htarget : number ≠ target := by
      rintro rfl
      simp [ht] at hp
    have hother : number ≠ other := by
      rintro rfl
      simp [ho] at hp
    rcases hcases with ⟨-, hmerge⟩ | ⟨-, -, hmerge⟩
    · rw [hmerge]
      dsimp only
      rw [table_put, if_neg hother, table_put, if_neg htarget]
    · rw [hmerge]
      dsimp only
      rw [table_put, if_neg hother, table_put, if_neg htarget]

theorem set_pending (h : catalog.Consistent)
    (hp : (catalog.table number).pending = some pending) (other : Nat) (type : ScalarType)
    (row col : Nat) (value : type.Carrier) :
    ((catalog.perform (.set other type row col value)).1.table number).rows =
      (catalog.table number).rows := by
  unfold Catalog.perform
  dsimp only
  split
  next heap later hok =>
    have hne : number ≠ other := by
      rintro rfl
      obtain ⟨hcomplete, -⟩ := (h number).set_eq_ok hok
      simp [hcomplete] at hp
    rw [table_put, if_neg hne]
    rfl
  next refused he =>
    rw [Table.leaves_set refused he]
    exact congrArg Table.rows (table_put_same catalog other number)

theorem selectSlice_pending (hp : (catalog.table number).pending = some pending) (other : Nat)
    (key : String) (rows cols : Interval) :
    ((catalog.perform (.selectSlice other key rows cols)).1.table number).rows =
      (catalog.table number).rows := by
  unfold Catalog.perform Catalog.replace
  dsimp only
  by_cases hne : number = other
  · subst hne
    rw [Table.selectSlice_pending hp]
    dsimp only
    rw [table_put_same]
  · split
    next => rw [table_put, if_neg hne]
    next => rw [table_put, if_neg hne]

theorem load_pending (h : catalog.Consistent)
    (hp : (catalog.table number).pending = some pending) (other : Nat) (settings : Csv.Settings)
    (input : Except Csv.ReadFault Csv.Feed) :
    ((catalog.perform (.load other settings input)).1.table number).rows =
      (catalog.table number).rows := by
  unfold Catalog.perform
  dsimp only
  by_cases hne : number = other
  · subst hne
    obtain ⟨fault, hload⟩ := Csv.load_of_cols settings input ((h number).cols_pos hp)
    rw [hload]
    dsimp only
    rw [table_put_same]
  · split
    next => rw [table_put, if_neg hne]
    next => rw [table_put, if_neg hne]

theorem rows_appendRows (h : catalog.Consistent)
    (hp : (catalog.table number).pending = some pending) {type : ScalarType} {rows cols : Nat}
    {order : Order} {storage : Storage type} {later : Table}
    (hok : (catalog.table number).appendRows catalog.heap rows cols order storage = .ok later) :
    rows = pending.rows ∧ later.rows = (catalog.table number).rows := by
  obtain ⟨dense, span, tails, hsame, -, -, -, -, -, -, rfl⟩ :=
    (h number).appendRows_eq_ok ((h number).cols_pos hp) hok
  refine ⟨hsame pending hp, ?_⟩
  rw [Table.linkRows, hp]
  rfl

/-- While rows of a table are pending, no operation changes how many rows it has. -/
theorem perform_pending (h : catalog.Consistent)
    (hp : (catalog.table number).pending = some pending) (operation : Operation) :
    ((catalog.perform operation).1.table number).rows = (catalog.table number).rows := by
  cases operation with
  | writeBuffer type buffer index value => rfl
  | appendColumns other type rows cols order storage =>
    exact replace_pending hp Table.leaves_appendColumns fun later hok =>
      Table.complete_of_ok hok
  | appendRows other type rows cols order storage =>
    obtain hsame | ⟨later, rfl, hok, hlater⟩ := catalog.table_replace other
      Table.leaves_appendRows number
    · exact congrArg Table.rows hsame
    · exact (congrArg Table.rows hlater).trans (h.rows_appendRows hp hok).2
  | merge target other => exact h.merge_pending hp target other
  | set other type row col value => exact h.set_pending hp other type row col value
  | label other name col =>
    exact replace_pending hp Table.leaves_label fun later hok => Table.complete_of_ok hok
  | selectRows other key rows =>
    exact replace_pending hp Table.leaves_selectRows fun later hok => Table.complete_of_ok hok
  | selectCols other key cols =>
    exact replace_pending hp Table.leaves_selectCols fun later hok => Table.complete_of_ok hok
  | selectSlice other key rows cols => exact selectSlice_pending hp other key rows cols
  | unselectRows other key rows =>
    exact replaceWith_pending hp Table.leaves_unselectRows fun later hok =>
      Table.complete_of_ok hok
  | unselectCols other key cols =>
    exact replaceWith_pending hp Table.leaves_unselectCols fun later hok =>
      Table.complete_of_ok hok
  | dropSelection other key =>
    obtain hsame | ⟨result, rfl, hok, hlater⟩ := catalog.table_replaceWith other
      (.ok ((catalog.table other).dropSelection key)) number
    · exact congrArg Table.rows hsame
    · cases hok
      exact (congrArg Table.rows hlater).trans (Table.rows_dropSelection _ key)
  | selectNonMissing other key fullRows =>
    exact replace_pending hp Table.leaves_selectNonMissing fun later hok =>
      Table.complete_of_ok hok
  | load other settings input => exact h.load_pending hp other settings input

end Pending

end Consistent

theorem Reachable.consistent (h : catalog.Reachable) : catalog.Consistent := by
  induction h with
  | empty => exact fun number => Table.consistent_empty {}
  | allocate h cells ih => exact ih.allocate cells
  | perform h operation ih => exact ih.perform operation

/-- Rows of a table are pending before each of the operations, and after the last one they are not. -/
def PendingUntil (number : Nat) : Catalog → List Operation → Prop
  | catalog, [] => (catalog.table number).pending = none
  | catalog, operation :: later =>
    (catalog.table number).pending ≠ none ∧ PendingUntil number (catalog.perform operation).1 later

instance decidablePendingUntil (number : Nat) :
    (catalog : Catalog) → (operations : List Operation) →
      Decidable (PendingUntil number catalog operations)
  | catalog, [] => inferInstanceAs (Decidable ((catalog.table number).pending = none))
  | catalog, operation :: later =>
    have := decidablePendingUntil number (catalog.perform operation).1 later
    inferInstanceAs (Decidable ((catalog.table number).pending ≠ none ∧
      PendingUntil number (catalog.perform operation).1 later))

/-- A group of row blocks is counted once, with whatever operations come in between. -/
theorem Consistent.rows_run (h : catalog.Consistent) {operations : List Operation}
    (hp : PendingUntil number catalog operations) :
    ((catalog.run operations).table number).rows = (catalog.table number).rows := by
  induction operations generalizing catalog with
  | nil => rfl
  | cons operation later ih =>
    obtain ⟨pending, hpending⟩ := Option.ne_none_iff_exists'.1 hp.1
    exact (ih (h.perform operation) hp.2).trans (h.perform_pending hpending operation)

theorem Reachable.run (h : catalog.Reachable) (operations : List Operation) :
    (catalog.run operations).Reachable := by
  induction operations generalizing catalog with
  | nil => exact h
  | cons operation later ih => exact ih (h.perform operation)

/-- The tables of a reachable catalog are consistent. Following the links from the head of a chain
comes to an end, every question has an answer, and no operation is refused for a fault of a table,
unless the input that it was to load came with it. A group of row blocks, which all have the same
number of rows, adds that number of rows once. -/
theorem Reachable.tables_sound (h : catalog.Reachable) (number : Nat) :
    (catalog.table number).Consistent catalog.heap ∧
    (∀ entry ∈ (catalog.table number).chains.entries,
      (catalog.table number).arena.Leads entry.2 ((catalog.table number).arena.path entry.2)) ∧
    (catalog.table number).Answering catalog.heap ∧
    (∀ operation refusal, (catalog.perform operation).2 = .error refusal →
      refusal.kind ≠ .internal ∨ ∃ number settings fault,
        operation = .load number settings (.error fault) ∧ refusal = .read fault) ∧
    ∀ (type : ScalarType) (rows cols : Nat) (order : Order) (storage : Storage type),
      (catalog.perform (.appendRows number type rows cols order storage)).2 = .ok .success →
      (∀ pending, (catalog.table number).pending = some pending → rows = pending.rows) ∧
      ((catalog.table number).pending = none → ∀ later,
        PendingUntil number (catalog.perform (.appendRows number type rows cols order storage)).1
          later →
        (((catalog.perform (.appendRows number type rows cols order storage)).1.run later).table
          number).rows = (catalog.table number).rows + rows) := by
  have hc := h.consistent
  refine ⟨hc number, fun entry hm => (hc number).apart.leads (Table.Consistent.mem_heads hm),
    (hc number).answering, fun operation refusal hr => hc.perform_refused hr, ?_⟩
  intro type rows cols order storage hok
  have happend := Consistent.of_replace_ok hok
  refine ⟨fun pending hp => (hc.rows_appendRows hp happend).1, fun hp later hlater => ?_⟩
  exact ((hc.perform _).rows_run hlater).trans (hc.rows_appendRows_first hp happend)

def twoColumns : Catalog :=
  Catalog.empty.run
    [.appendColumns 0 .int 1 1 .columnMajor (.copied #[7]),
      .appendColumns 0 .str 1 1 .columnMajor (.copied #["a"])]

def restOfRow : List Operation :=
  [.label 0 "text" 1, .appendRows 0 .str 1 1 .columnMajor (.copied #["b"])]

theorem tables_sound_two_columns :
    (((twoColumns.perform (.appendRows 0 .int 1 1 .columnMajor (.copied #[8]))).1.run
      restOfRow).table 0).rows = 2 := by
  have hr : twoColumns.Reachable := Reachable.empty.run _
  have hp : (twoColumns.table 0).pending = none := by decide +kernel
  obtain ⟨-, -, -, -, hgroup⟩ := Reachable.tables_sound hr 0
  obtain ⟨-, hrows⟩ := hgroup .int 1 1 .columnMajor (.copied #[8]) (by decide +kernel)
  exact hrows hp restOfRow (by decide +kernel)

end TypedTable.Catalog
