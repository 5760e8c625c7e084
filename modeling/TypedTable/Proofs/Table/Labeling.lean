import TypedTable.Proofs.Table.Joining

/-!
# Labels and columns answer for one another

In every reachable table a name stands for the one column that has it as its label, and a column has
one label at most. A name that is given to a column leaves the column it stood for, and the label
that the column had stands for nothing any more.
-/

set_option autoImplicit false

namespace TypedTable

namespace Table

def Carries (table : Table) (col : Nat) (name : String) : Prop :=
  table.labels.names[col]? = some (some name)

instance (table : Table) (col : Nat) (name : String) : Decidable (table.Carries col name) :=
  inferInstanceAs (Decidable (table.labels.names[col]? = some (some name)))

/-- What is found under a name is the column that has it, and no other. -/
structure OneToOne (table : Table) : Prop where
  found (name : String) (col : Nat) :
    table.labeledColumn name = .ok col ↔ col < table.cols ∧ table.Carries col name
  unknown (name : String) : (¬ ∃ col, table.Carries col name) →
    table.labeledColumn name = .error (.invalidArgument (.unknownLabel name))
  /-- No column answers to two names. -/
  oneName (name other : String) (col : Nat) :
    table.labeledColumn name = .ok col → table.labeledColumn other = .ok col → other = name
  answered (col : Nat) : (∃ name, table.columnLabel col = .ok name) ↔ col < table.cols
  shown (col : Nat) (name : String) : table.Carries col name → table.columnLabel col = .ok name
  blank (col : Nat) : col < table.cols → (¬ ∃ name, table.Carries col name) →
    table.columnLabel col = .ok ""
  /-- The empty name is also what a column without a label shows. -/
  named (name : String) (col : Nat) : name ≠ "" →
    (table.labeledColumn name = .ok col ↔ table.columnLabel col = .ok name)

/-- A name was given to a column: it stands for this column only, and nothing else does. -/
structure Relabeled (table later : Table) (name : String) (col : Nat) : Prop where
  given : later.labeledColumn name = .ok col
  shown : later.columnLabel col = .ok name
  /-- Another name stands for the column that it stood for, unless this was the one. -/
  others (other : String) (place : Nat) : other ≠ name →
    (later.labeledColumn other = .ok place ↔
      place ≠ col ∧ table.labeledColumn other = .ok place)
  /-- Another column shows what it showed, unless the name was its label. -/
  columns (place : Nat) : place ≠ col →
    later.columnLabel place =
      if table.Carries place name then .ok "" else table.columnLabel place

namespace Consistent

variable {heap : Heap} {table later : Table} {name : String} {col : Nat}

theorem columnLabel_eq_ok_iff (h : table.Consistent heap) :
    table.columnLabel col = .ok name ↔
      ∃ label, table.labels.names[col]? = some label ∧ label.getD "" = name := by
  constructor
  · intro hok
    obtain ⟨u, hcol, -⟩ := bind_eq_ok_iff.1 hok
    obtain ⟨label, hlabel, hshown⟩ := h.columnLabel_eq (require_eq_ok.1 hcol)
    exact ⟨label, hlabel, Except.ok.inj (hshown.symm.trans hok)⟩
  · rintro ⟨label, hlabel, rfl⟩
    have hlt : col < table.cols := h.labels.length ▸ (List.getElem?_eq_some_iff.1 hlabel).1
    obtain ⟨found, hfound, hshown⟩ := h.columnLabel_eq hlt
    rw [hshown, Option.some.inj (hfound.symm.trans hlabel)]

theorem columnLabel_of_le (hle : table.cols ≤ col) :
    table.columnLabel col = .error (.indexOutOfBounds col .columns table.cols) := by
  rw [columnLabel, checkCol, require, if_neg (Nat.not_lt.2 hle), error_bind]

theorem labeledColumn_of_unused (h : table.Consistent heap)
    (hn : ¬ ∃ col, table.Carries col name) :
    table.labeledColumn name = .error (.invalidArgument (.unknownLabel name)) := by
  unfold labeledColumn
  split
  next col hfound => exact absurd ⟨col, (h.labels.find?_iff name col).1 hfound⟩ hn
  next => rfl

theorem oneToOne (h : table.Consistent heap) : table.OneToOne where
  found name col := by
    rw [h.labeledColumn_eq_ok_iff]
    exact ⟨fun hn => ⟨h.labels.lt hn, hn⟩, And.right⟩
  unknown name := h.labeledColumn_of_unused
  oneName name other col hname hother := by
    rw [h.labeledColumn_eq_ok_iff] at hname hother
    exact Option.some.inj (Option.some.inj (hother.symm.trans hname))
  answered col := by
    refine ⟨fun ⟨name, hok⟩ => ?_, fun hlt => ?_⟩
    · obtain ⟨u, hcol, -⟩ := bind_eq_ok_iff.1 hok
      exact require_eq_ok.1 hcol
    · obtain ⟨label, -, hshown⟩ := h.columnLabel_eq hlt
      exact ⟨_, hshown⟩
  shown col name hn := h.columnLabel_eq_ok_iff.2 ⟨some name, hn, rfl⟩
  blank col hlt hn := by
    obtain ⟨label, hlabel, hshown⟩ := h.columnLabel_eq hlt
    cases label with
    | none => exact hshown
    | some name => exact absurd ⟨name, hlabel⟩ hn
  named name col hn := by
    rw [h.labeledColumn_eq_ok_iff, h.columnLabel_eq_ok_iff]
    constructor
    · exact fun hlabel => ⟨some name, hlabel, rfl⟩
    · rintro ⟨label, hlabel, rfl⟩
      cases label with
      | none => exact absurd rfl hn
      | some name => exact hlabel

theorem relabeled (h : table.Consistent heap) (hok : table.label name col = .ok later) :
    table.Relabeled later name col := by
  have hlater := h.label hok
  obtain ⟨u, -, hok⟩ := refuse_bind_eq_ok_iff.1 hok
  obtain ⟨v, hcol, hok⟩ := refuse_bind_eq_ok_iff.1 hok
  cases hok
  have hlt : col < table.labels.names.length := h.labels.length ▸ require_eq_ok.1 hcol
  have hnames (place : Nat) : (table.labels.attach name col).names[place]? =
      if place = col then some (some name)
      else table.labels.names[place]?.map fun label =>
        if label = some name then none else label := by
    rw [h.labels.names_attach, Labels.getElem?_relabel _ hlt]
  have hgiven : (table.labels.attach name col).names[col]? = some (some name) := by
    rw [hnames, if_pos rfl]
  constructor
  case given => exact hlater.labeledColumn_eq_ok_iff.2 hgiven
  case shown => exact hlater.columnLabel_eq_ok_iff.2 ⟨some name, hgiven, rfl⟩
  case others =>
    intro other place hne
    rw [hlater.labeledColumn_eq_ok_iff, h.labeledColumn_eq_ok_iff, hnames]
    split
    next hplace =>
      exact iff_of_false (fun he => hne (Option.some.inj (Option.some.inj he)).symm)
        fun hboth => hboth.1 hplace
    next hplace =>
      rw [and_iff_right hplace, Option.map_eq_some_iff]
      constructor
      · rintro ⟨label, hlabel, hsame⟩
        split at hsame
        next => cases hsame
        next => rw [hlabel, hsame]
      · intro hlabel
        exact ⟨some other, hlabel, if_neg fun he => hne (Option.some.inj he)⟩
  case columns =>
    intro place hne
    have hplace := hnames place
    rw [if_neg hne] at hplace
    rcases Nat.lt_or_ge place table.cols with hp | hp
    · obtain ⟨label, hlabel, hshown⟩ := h.columnLabel_eq hp
      obtain ⟨label', hlabel', hshown'⟩ := hlater.columnLabel_eq (show place < table.cols from hp)
      rw [hlabel, hlabel', Option.map_some, Option.some.injEq] at hplace
      have hcarries : table.Carries place name ↔ label = some name := by
        unfold Carries
        rw [hlabel, Option.some.injEq]
      rw [hshown, hshown', hplace]
      -- a column that had the name has lost it
      by_cases hname : label = some name
      · rw [if_pos hname, if_pos (hcarries.2 hname)]
        rfl
      · rw [if_neg hname, if_neg (mt hcarries.1 hname)]
    · have hfree : ¬ table.Carries place name := fun hn =>
        Nat.not_lt.2 hp (h.labels.lt hn)
      rw [if_neg hfree, columnLabel_of_le hp]
      exact columnLabel_of_le hp

end Consistent

end Table

namespace Catalog

variable {catalog : Catalog}

/-- In a reachable table names and columns answer for one another. A name that is given to a column
stands for this column only afterwards, and the column has no other label. -/
theorem Reachable.labels_one_to_one (h : catalog.Reachable) (number : Nat) :
    (catalog.table number).OneToOne ∧
      ∀ name col later status, catalog.perform (.label number name col) = (later, .ok status) →
        (catalog.table number).Relabeled (later.table number) name col := by
  refine ⟨(h.consistent number).oneToOne, fun name col later status hok => ?_⟩
  obtain ⟨rfl, hstatus⟩ := Prod.mk.inj hok
  exact (h.consistent number).relabeled (Consistent.of_replace_ok hstatus)

/-- The merge of two tables that both have a column `count`. The second one's column `total` is to
the right of it. -/
theorem labels_one_to_one_neighbours :
    ∃ later, (neighbours.run [.merge 0 1]).perform (.label 0 "total" 0) = (later, .ok .success) ∧
      (later.table 0).labeledColumn "total" = .ok 0 ∧ (later.table 0).columnLabel 2 = .ok "" ∧
      ∀ col, (later.table 0).labeledColumn "count" ≠ .ok col := by
  have hr : (neighbours.run [.merge 0 1]).Reachable := (Reachable.empty.run _).run _
  obtain ⟨hbefore, hgiven⟩ := hr.labels_one_to_one 0
  have hok : ((neighbours.run [.merge 0 1]).perform (.label 0 "total" 0)).2 = .ok .success := by
    decide +kernel
  have hlater := hgiven "total" 0 _ .success (Prod.ext rfl hok)
  refine ⟨_, Prod.ext rfl hok, hlater.given, ?_, fun col hcount => ?_⟩
  · rw [hlater.columns 2 (by decide), if_pos (by decide +kernel)]
  · -- the name still stood for the column that has just got another one
    obtain ⟨hne, hold⟩ := (hlater.others "count" col (by decide)).1 hcount
    have hcount : ((neighbours.run [.merge 0 1]).table 0).labeledColumn "count" = .ok 0 := by
      decide +kernel
    exact hne (Except.ok.inj (hold.symm.trans hcount))

end Catalog

end TypedTable
