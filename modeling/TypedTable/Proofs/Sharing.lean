import TypedTable.Proofs.Catalog
import TypedTable.Proofs.Table.Copying
import TypedTable.Proofs.Table.Retaining

/-!
# Tables that share buffers

A cell of a block is followed from the call that brings the block through whatever calls come later.
A merge moves it, and nothing else does. A borrowed block has its cells in the elements of a buffer,
for good: to read one is to read the element, to write one is to write it, and so they are the same
for all blocks that borrow it. What a block has of its own is out of reach for every buffer.
-/

set_option autoImplicit false

namespace TypedTable

structure Site where
  table : Nat
  row : Nat
  col : Nat
deriving DecidableEq, Repr

def Site.set (site : Site) {type : ScalarType} (value : type.Carrier) : Operation :=
  .set site.table type site.row site.col value

namespace Catalog

def get (catalog : Catalog) (site : Site) (type : ScalarType) : Except TableFault type.Carrier :=
  (catalog.table site.table).get catalog.heap type site.row site.col

def origin? (catalog : Catalog) (site : Site) : Option Origin :=
  ((catalog.table site.table).origins site.col)[site.row]?

/-- Where a cell is after an operation. A merge that is carried out takes the columns of the other
table along. -/
def moved (catalog : Catalog) (operation : Operation) (site : Site) : Site :=
  match operation with
  | .merge number other =>
    if (catalog.perform operation).2.isOk ∧ site.table = other then
      { site with table := number, col := (catalog.table number).cols + site.col }
    else site
  | _ => site

/-- Where its value is kept then. Only a write to the very cell replaces what its block has. -/
def rewritten (catalog : Catalog) (operation : Operation) (site : Site) (origin : Origin) :
    Origin :=
  match operation with
  | .set number type row col value =>
    if (catalog.perform operation).2.isOk ∧ site = ⟨number, row, col⟩ then
      origin.write ⟨type, value⟩
    else origin
  | _ => origin

variable {catalog : Catalog} {site : Site} {origin : Origin} {number : Nat}

theorem origin?_put {table : Table}
    (hr : site.table = number → (catalog.table number).Retains table)
    (ho : catalog.origin? site = some origin) :
    (catalog.put number table).origin? site = some origin := by
  rw [origin?, table_put]
  split
  next he => exact hr he _ _ _ (he ▸ ho)
  next => exact ho

theorem origin?_replace {change : Except (Refused Table) Table}
    (hr : ∀ table, change = .ok table → (catalog.table number).Retains table)
    (hl : ∀ refused, change = .error refused → (catalog.table number).Retains refused.left)
    (ho : catalog.origin? site = some origin) :
    (catalog.replace number change).1.origin? site = some origin := by
  cases change with
  | ok table => exact origin?_put (fun _ => hr table rfl) ho
  | error refused => exact origin?_put (fun _ => hl refused rfl) ho

theorem origin?_replaceWith {change : Except (Refused Table) (Table × Status)}
    (hr : ∀ table status, change = .ok (table, status) → (catalog.table number).Retains table)
    (hl : Leaves (catalog.table number) change) (ho : catalog.origin? site = some origin) :
    (catalog.replaceWith number change).1.origin? site = some origin := by
  cases change with
  | ok result => exact origin?_put (fun _ => hr result.1 result.2 rfl) ho
  | error refused => exact origin?_put (fun _ => hl.holds (.refl _) refused rfl) ho

namespace Consistent

/-- The cells of a table that is merged move; those of the table that takes them over do not. -/
theorem origin?_merge (h : catalog.Consistent) {other : Nat}
    (hs : Operation.merge number other ≠ .merge site.table site.table)
    (ho : catalog.origin? site = some origin) :
    (catalog.perform (.merge number other)).1.origin?
      (catalog.moved (.merge number other) site) = some origin := by
  have hback : ((catalog.put number (catalog.table number)).put other
      (catalog.table other)).origin? site = some origin := by
    refine origin?_put (fun _ => ?_) (origin?_put (fun _ => .refl _) ho)
    rw [table_put_same]
    exact .refl _
  rcases (h number).merge_cases (h other) with
      ⟨fault, -, hmerge⟩ | ⟨hp, hpo, ⟨hnone, hmerge⟩ | ⟨hc, hr, hmerge⟩⟩
  · simp only [moved, Catalog.perform, hmerge, Except.isOk, Except.toBool, Bool.false_eq_true,
      false_and, if_false]
    exact hback
  · have hne : site.table ≠ other := by
      intro he
      obtain ⟨hlt, -⟩ := (h site.table).exists_block ho
      rw [he, hnone] at hlt
      omega
    simp only [moved, Catalog.perform, hmerge, Except.isOk, Except.toBool, true_and, if_neg hne]
    exact hback
  · have hmerged := (h number).merged_consistent (h other) hp hpo hc hr
    simp only [moved, Catalog.perform, hmerge, Except.isOk, Except.toBool, true_and]
    split
    next he =>
      have hne : number ≠ other := fun hsame => hs (by rw [he, hsame])
      rw [origin?, table_put, if_neg hne, table_put_self]
      subst he
      exact (h number).origin_merged (h site.table) hmerged ho
    next hne =>
      rw [origin?, table_put, if_neg hne]
      exact origin?_put (fun _ => (h number).retains_merged (h other) hmerged) ho

theorem origin?_set (h : catalog.Consistent) (ho : catalog.origin? site = some origin)
    {type : ScalarType} {row col : Nat} {value : type.Carrier} :
    (catalog.perform (.set number type row col value)).1.origin? site =
      some (catalog.rewritten (.set number type row col value) site origin) := by
  cases hset : (catalog.table number).set catalog.heap type row col value with
  | error refused =>
    simp only [rewritten, Catalog.perform, hset, Except.isOk, Except.toBool, Bool.false_eq_true,
      false_and, if_false]
    rw [Table.leaves_set refused hset]
    exact origin?_put (fun _ => .refl _) ho
  | ok result =>
    obtain ⟨found, hfound, -, -, hothers⟩ := (h number).origins_set hset
    simp only [rewritten, Catalog.perform, hset, Except.isOk, Except.toBool, true_and]
    rw [origin?, table_put]
    split
    next he =>
      obtain ⟨table, row', col'⟩ := site
      obtain rfl : table = number := he
      rw [hothers]
      by_cases hcol : col' = col
      · subst hcol
        by_cases hrow : row' = row
        · subst hrow
          obtain rfl := Option.some.inj (hfound.symm.trans ho)
          obtain ⟨hlt, -⟩ := List.getElem?_eq_some_iff.1 hfound
          rw [if_pos rfl, if_pos rfl, List.getElem?_set_self hlt]
        · rw [if_pos rfl, List.getElem?_set_ne (Ne.symm hrow), if_neg (by simp [hrow])]
          exact ho
      · rw [if_neg hcol, if_neg (by simp [hcol])]
        exact ho
    next hne =>
      rw [if_neg]
      · exact ho
      · exact fun hsame => hne (congrArg Site.table hsame)

theorem origin?_load (h : catalog.Consistent) (ho : catalog.origin? site = some origin)
    (settings : Csv.Settings) (input : Except Csv.ReadFault Csv.Feed) :
    (catalog.perform (.load number settings input)).1.origin? site = some origin := by
  unfold Catalog.perform
  dsimp only
  by_cases he : site.table = number
  · -- a table with a cell has columns, and so it is not loaded
    obtain ⟨hlt, -⟩ := (h site.table).exists_block ho
    obtain ⟨fault, hload⟩ := Csv.load_of_cols settings input (he ▸ Nat.zero_lt_of_lt hlt)
    rw [hload]
    exact origin?_put (fun _ => .refl _) ho
  · split
    next => exact origin?_put (fun hsame => absurd hsame he) ho
    next => exact origin?_put (fun hsame => absurd hsame he) ho

/-- A cell is found again after every operation: where the operation has moved it, and with its
value where it was unless that is overwritten. -/
theorem origin?_perform (h : catalog.Consistent) {operation : Operation}
    (hs : operation ≠ .merge site.table site.table) (ho : catalog.origin? site = some origin) :
    (catalog.perform operation).1.origin? (catalog.moved operation site) =
      some (catalog.rewritten operation site origin) := by
  cases operation with
  | writeBuffer type buffer index value => exact ho
  | appendColumns number type rows cols order storage =>
    exact origin?_replace (fun later hok => (h number).retains_appendColumns hok)
      (Table.leaves_appendColumns.holds (.refl _)) ho
  | appendRows number type rows cols order storage =>
    exact origin?_replace (fun later hok => (h number).retains_appendRows hok)
      (Table.leaves_appendRows.holds (.refl _)) ho
  | merge number other => exact h.origin?_merge hs ho
  | set number type row col value => exact h.origin?_set ho
  | label number name col =>
    exact origin?_replace (fun later hok => (Table.Annotates.label hok).retains)
      (Table.leaves_label.holds (.refl _)) ho
  | selectRows number key rows =>
    exact origin?_replace (fun later hok => (Table.Annotates.selectRows hok).retains)
      (Table.leaves_selectRows.holds (.refl _)) ho
  | selectCols number key cols =>
    exact origin?_replace (fun later hok => (Table.Annotates.selectCols hok).retains)
      (Table.leaves_selectCols.holds (.refl _)) ho
  | selectSlice number key rows cols =>
    exact origin?_replace (fun later hok => (Table.Annotates.selectSlice hok).retains)
      (fun refused he => (Table.Annotates.selectSlice_refused he).retains) ho
  | unselectRows number key rows =>
    exact origin?_replaceWith
      (fun later status hok => (Table.Annotates.unselectRows hok).retains)
      Table.leaves_unselectRows ho
  | unselectCols number key cols =>
    exact origin?_replaceWith
      (fun later status hok => (Table.Annotates.unselectCols hok).retains)
      Table.leaves_unselectCols ho
  | dropSelection number key =>
    exact origin?_put (fun _ => (Table.Annotates.dropSelection _ key).retains) ho
  | selectNonMissing number key fullRows =>
    exact origin?_replace (fun later hok => (Table.Annotates.selectNonMissing hok).retains)
      (Table.leaves_selectNonMissing.holds (.refl _)) ho
  | load number settings input => exact h.origin?_load ho settings input

end Consistent

end Catalog

theorem Csv.load_ownsCells {heap : Heap} {table : Table} (h : table.Consistent heap)
    {s : Settings} {input : Except ReadFault Feed} {result : Table × Status}
    (hok : load table s input = .ok result) : result.1.OwnsCells := by
  unfold load at hok
  split at hok
  · cases hok
  · split at hok
    · cases hok
    next hempty =>
      have hnone : table.OwnsCells := by
        intro row col origin ho
        obtain ⟨hlt, -⟩ := h.exists_block ho
        simp [Table.isEmpty] at hempty
        omega
      have hboth : result.1.Consistent heap ∧ result.1.OwnsCells := by
        refine Loading.fill_keeps (P := fun table => table.Consistent heap ∧ table.OwnsCells)
          ?_ ?_ ⟨h, hnone⟩ (mapError_eq_ok_iff.1 hok)
        · rintro table later type rows cols order cells ⟨hc, ho⟩ hadopt
          refine ⟨Loading.adopt_consistent hc hadopt, ?_⟩
          rw [Loading.adopt_eq heap] at hadopt
          exact hc.ownsCells_appendColumns ho (by simp [Storage.ownership])
            (mapError_eq_ok_iff.1 hadopt)
        · rintro table later name col ⟨hc, ho⟩ hlabel
          obtain ⟨labels, selections, -, rfl⟩ := Table.Annotates.label hlabel
          exact ⟨hc.label hlabel, ho⟩
      exact hboth.2

namespace Catalog

/-- Calls have put a block into a table, and any others have come since, refused ones among them. One
of its cells is now at the site, and the origin is where its value is kept. No table is merged with
itself. -/
inductive Brought : Catalog → Site → Origin → Prop
  | appendColumns {catalog : Catalog} (h : catalog.Reachable) {number : Nat} {type : ScalarType}
    {rows cols : Nat} {order : Order} {storage : Storage type}
    (hok : (catalog.perform (.appendColumns number type rows cols order storage)).2 = .ok .success)
    {row col : Nat} (hr : row < rows) (hc : col < cols) :
    Brought (catalog.perform (.appendColumns number type rows cols order storage)).1
      ⟨number, row, (catalog.table number).cols + col⟩
      (storage.origin (order.offset row col rows cols))
  | appendRows {catalog : Catalog} (h : catalog.Reachable) {number : Nat} {type : ScalarType}
    {rows cols : Nat} {order : Order} {storage : Storage type}
    (hok : (catalog.perform (.appendRows number type rows cols order storage)).2 = .ok .success)
    {row col : Nat} (hr : row < rows) (hc : col < cols) :
    Brought (catalog.perform (.appendRows number type rows cols order storage)).1
      ⟨number, (catalog.table number).rows - (catalog.table number).lackedRows + row,
        (catalog.table number).nextRowColumn + col⟩
      (storage.origin (order.offset row col rows cols))
  | load {catalog : Catalog} (h : catalog.Reachable) {number : Nat} {settings : Csv.Settings}
    {input : Except Csv.ReadFault Csv.Feed} {status : Status}
    (hok : (catalog.perform (.load number settings input)).2 = .ok status) {row col : Nat}
    {cell : Cell}
    (hget : (catalog.perform (.load number settings input)).1.get ⟨number, row, col⟩ cell.type =
      .ok cell.value) :
    Brought (catalog.perform (.load number settings input)).1 ⟨number, row, col⟩ (.own cell)
  | allocate {catalog : Catalog} {site : Site} {origin : Origin} (h : Brought catalog site origin)
    {type : ScalarType} (cells : Array type.Carrier) :
    Brought (catalog.allocate cells).2 site origin
  | perform {catalog : Catalog} {site : Site} {origin : Origin} (h : Brought catalog site origin)
    (operation : Operation) (hs : operation ≠ .merge site.table site.table) :
    Brought (catalog.perform operation).1 (catalog.moved operation site)
      (catalog.rewritten operation site origin)

variable {catalog : Catalog} {site : Site} {origin : Origin}

theorem Brought.reachable (h : Brought catalog site origin) : catalog.Reachable := by
  induction h with
  | appendColumns h hok hr hc => exact h.perform _
  | appendRows h hok hr hc => exact h.perform _
  | load h hok hget => exact h.perform _
  | allocate h cells ih => exact ih.allocate cells
  | perform h operation hs ih => exact ih.perform operation

theorem Consistent.origin?_of_load (h : catalog.Consistent) {number : Nat} {settings : Csv.Settings}
    {input : Except Csv.ReadFault Csv.Feed} {status : Status}
    (hok : (catalog.perform (.load number settings input)).2 = .ok status) {row col : Nat}
    {cell : Cell}
    (hget : (catalog.perform (.load number settings input)).1.get ⟨number, row, col⟩ cell.type =
      .ok cell.value) :
    (catalog.perform (.load number settings input)).1.origin? ⟨number, row, col⟩ =
      some (.own cell) := by
  have hlater := h.perform (.load number settings input) number
  have hheld := hlater.holds_of_get hget
  rw [Table.Holds, Table.column_eq_map, List.getElem?_map] at hheld
  obtain ⟨origin, horigin, hread⟩ := Option.map_eq_some_iff.1 hheld
  have howns : ((catalog.perform (.load number settings input)).1.table number).OwnsCells := by
    unfold Catalog.perform at hok ⊢
    dsimp only at hok ⊢
    cases hload : Csv.load (catalog.table number) settings input with
    | ok result =>
      dsimp only
      rw [table_put_self]
      exact Csv.load_ownsCells (h number) hload
    | error halted =>
      rw [hload] at hok
      cases hok
  obtain ⟨found, rfl⟩ := howns row col origin horigin
  obtain rfl : found = cell := hread
  exact horigin

theorem Brought.origin?_eq (h : Brought catalog site origin) :
    catalog.origin? site = some origin := by
  induction h with
  | appendColumns h hok hr hc =>
    exact (h.consistent _).origin_appendColumns (Consistent.of_replace_ok hok) hr hc
  | appendRows h hok hr hc =>
    exact (h.consistent _).origin_appendRows (Consistent.of_replace_ok hok) hr hc
  | load h hok hget => exact h.consistent.origin?_of_load hok hget
  | allocate h cells ih => exact ih
  | perform h operation hs ih => exact h.reachable.consistent.origin?_perform hs ih

def Shows (catalog : Catalog) (site : Site) {type : ScalarType} (value : type.Carrier) : Prop :=
  catalog.get site type = .ok value ∧ ∀ other, other ≠ type →
    catalog.get site other = .error (.typeMismatch (.block type other))

def Settled (catalog : Catalog) (site : Site) : Prop := (catalog.table site.table).pending = none

instance (catalog : Catalog) (site : Site) : Decidable (catalog.Settled site) :=
  inferInstanceAs (Decidable (_ = _))

namespace Consistent

theorem shows (h : catalog.Consistent) (ho : catalog.origin? site = some origin)
    (hp : catalog.Settled site) : catalog.Shows site (origin.value catalog.heap) :=
  (h site.table).get_origin hp ho

theorem shows_shared (h : catalog.Consistent) {type : ScalarType} {buffer : SharedBuffer type}
    {index : Nat} (ho : catalog.origin? site = some (.shared buffer index)) :
    ∃ hi : index < (catalog.heap.contents buffer).size,
      catalog.Settled site → catalog.Shows site ((catalog.heap.contents buffer)[index]) := by
  have hi := (h site.table).index_lt ho
  have hvalue : (Origin.shared buffer index).value catalog.heap =
      (catalog.heap.contents buffer)[index] := by
    rw [Origin.value, Array.getElem?_eq_getElem hi, Option.getD_some]
  exact ⟨hi, fun hp => hvalue ▸ h.shows ho hp⟩

section Write

variable {type : ScalarType} {buffer : SharedBuffer type} {index : Nat}

/-- A write to a shared cell is one to the buffer; the tables keep all cells where they are. -/
theorem perform_set_shared (h : catalog.Consistent)
    (ho : catalog.origin? site = some (.shared buffer index)) {value : type.Carrier}
    (hok : (catalog.perform (site.set value)).2 = .ok .success) :
    (catalog.perform (site.set value)).1.heap = catalog.heap.write buffer index value ∧
      ∀ number, (catalog.table number).SameLayout
        ((catalog.perform (site.set value)).1.table number) := by
  unfold Site.set Catalog.perform at hok ⊢
  dsimp only at hok ⊢
  cases hset : (catalog.table site.table).set catalog.heap type site.row site.col value with
  | error fault =>
    rw [hset] at hok
    cases hok
  | ok result =>
    obtain ⟨hheap, hlayout⟩ := (h site.table).layout_set_shared ho hset
    refine ⟨hheap, fun number => ?_⟩
    dsimp only
    rw [table_put]
    split
    next he => exact he ▸ hlayout
    next => exact .refl _

theorem set_refused (h : catalog.Consistent) (ho : catalog.origin? site = some origin)
    {other : ScalarType} (hne : other ≠ origin.type) (value : other.Carrier) :
    (catalog.perform (site.set value)).2 ≠ .ok .success := by
  unfold Site.set Catalog.perform
  dsimp only
  cases hset : (catalog.table site.table).set catalog.heap other site.row site.col value with
  | error fault => nofun
  | ok result =>
    obtain ⟨found, hfound, htype, -⟩ := (h site.table).origins_set hset
    obtain rfl := Option.some.inj (hfound.symm.trans ho)
    exact absurd htype.symm hne

end Write

end Consistent

/-- One element of one buffer was overwritten: the cells that are kept there show the new value, and
no other cell and no other element differ. -/
structure Overwritten (catalog later : Catalog) {type : ScalarType} (buffer : SharedBuffer type)
    (index : Nat) (value : type.Carrier) : Prop where
  element : later.heap.contents buffer = (catalog.heap.contents buffer).setIfInBounds index value
  elsewhere : ∀ {other : ScalarType} (reader : SharedBuffer other),
    (⟨other, reader⟩ : (type : ScalarType) × SharedBuffer type) ≠ ⟨type, buffer⟩ →
      later.heap.contents reader = catalog.heap.contents reader
  shown : ∀ site, catalog.origin? site = some (.shared buffer index) → later.Settled site →
    later.Shows site value
  kept : ∀ site, catalog.origin? site ≠ some (.shared buffer index) →
    ∀ other, later.get site other = catalog.get site other

/-- All that a write to a buffer does is seen in the cells that are kept there. -/
theorem Consistent.overwritten {later : Catalog} (h : catalog.Consistent) (hl : later.Consistent)
    {type : ScalarType} {buffer : SharedBuffer type} {index : Nat} {value : type.Carrier}
    (hheap : later.heap = catalog.heap.write buffer index value)
    (hlayout : ∀ number, (catalog.table number).SameLayout (later.table number)) :
    catalog.Overwritten later buffer index value where
  element := by rw [hheap, Heap.contents_write_self]
  elsewhere reader hne := by rw [hheap, Heap.contents_write_of_ne _ _ _ hne]
  shown site ho hp := by
    have hlater : later.origin? site = some (.shared buffer index) := by
      rw [origin?, (hlayout site.table).origins]
      exact ho
    have hvalue := Origin.value_write_self catalog.heap buffer value ((h site.table).index_lt ho)
    have hshows := hl.shows hlater hp
    rw [hheap, hvalue] at hshows
    exact hshows
  kept site hne other := by
    refine (h site.table).get_of_layout (hl site.table) (hlayout site.table) ?_ other
    intro origin ho
    rw [hheap]
    exact Origin.read_write_of_ne catalog.heap buffer value fun he => hne (he ▸ ho)

section Lengths

variable (catalog : Catalog) {type : ScalarType} (buffer : SharedBuffer type)

theorem heap_replace (number : Nat) (change : Except (Refused Table) Table) :
    (catalog.replace number change).1.heap = catalog.heap := by
  cases change <;> rfl

theorem heap_replaceWith (number : Nat) (change : Except (Refused Table) (Table × Status)) :
    (catalog.replaceWith number change).1.heap = catalog.heap := by
  cases change <;> rfl

/-- No operation changes the length of a buffer, whether it is carried out or refused. -/
theorem size_contents_perform (operation : Operation) :
    ((catalog.perform operation).1.heap.contents buffer).size =
      (catalog.heap.contents buffer).size := by
  cases operation with
  | writeBuffer written target index value =>
    exact catalog.heap.size_contents_write target buffer index value
  | set number written row col value =>
    unfold Catalog.perform
    dsimp only
    split
    next heap table hset =>
      obtain ⟨place, -, hset⟩ := refuse_bind_eq_ok_iff.1 hset
      obtain ⟨block, -, hset⟩ := refuse_bind_eq_ok_iff.1 hset
      obtain ⟨⟨later, block'⟩, hblock, hset⟩ := within_bind_eq_ok_iff.1 hset
      obtain ⟨dense, -, -, -, rfl, -⟩ := Block.set_eq_ok hblock
      cases hset
      exact dense.storage.size_contents_write catalog.heap _ value buffer
    next refused he => rw [Table.leaves_set refused he, Catalog.put]
  | merge | load =>
    unfold Catalog.perform
    dsimp only
    split <;> rfl
  | appendColumns | appendRows | label | selectRows | selectCols | selectSlice
  | selectNonMissing =>
    exact congrArg (fun heap : Heap => (heap.contents buffer).size) (catalog.heap_replace _ _)
  | unselectRows | unselectCols | dropSelection =>
    exact congrArg (fun heap : Heap => (heap.contents buffer).size) (catalog.heap_replaceWith _ _)

end Lengths

/-- A borrowed block and its buffer stay one. Whatever calls come after the one that brings the
block, a read of one of its cells finds the element of the buffer that the storage order gives the
cell, as it is by then, unless rows of the table are pending: then nothing is read from it. A write
to the cell overwrites this element. So all cells that are kept there show what was written, be it
through a table or directly, and nothing else differs; a cell of a copied, adopted or loaded block
has what was last written to itself. No operation changes the length of a buffer, and a new buffer
is none of the others. -/
theorem borrowed_stays_one :
    (∀ {catalog : Catalog} {site : Site} {origin : Origin}, Brought catalog site origin →
      catalog.origin? site = some origin ∧
        ∀ cell, origin = .own cell → catalog.Settled site → catalog.Shows site cell.value) ∧
    (∀ {catalog : Catalog} {site : Site} {type : ScalarType} {buffer : SharedBuffer type}
      {index : Nat}, Brought catalog site (.shared buffer index) →
      (∃ hi : index < (catalog.heap.contents buffer).size,
        catalog.Settled site → catalog.Shows site ((catalog.heap.contents buffer)[index])) ∧
      (∀ value : type.Carrier, (catalog.perform (site.set value)).2 = .ok .success →
        catalog.Overwritten (catalog.perform (site.set value)).1 buffer index value) ∧
      ∀ (other : ScalarType) (value : other.Carrier), other ≠ type →
        (catalog.perform (site.set value)).2 ≠ .ok .success) ∧
    (∀ {catalog : Catalog}, catalog.Reachable →
      ∀ (type : ScalarType) (buffer : SharedBuffer type) (index : Nat) (value : type.Carrier),
        catalog.Overwritten (catalog.perform (.writeBuffer type buffer index value)).1 buffer index
          value) ∧
    (∀ (catalog : Catalog) (site : Site) (pending : PendingRows),
      (catalog.table site.table).pending = some pending →
        ∀ type, catalog.get site type = .error (.missingBlock pending.nextCol)) ∧
    ∀ (catalog : Catalog) {type : ScalarType} (buffer : SharedBuffer type),
      (∀ operation, ((catalog.perform operation).1.heap.contents buffer).size =
        (catalog.heap.contents buffer).size) ∧
      ∀ {other : ScalarType} (cells : Array other.Carrier),
        buffer.index < (catalog.heap.pool type).size →
          (catalog.allocate cells).2.heap.contents buffer = catalog.heap.contents buffer := by
  refine ⟨fun hb => ⟨hb.origin?_eq, fun cell hown hp => ?_⟩, fun hb => ?_,
    fun hr type buffer index value => ?_, fun catalog site pending hp => Table.get_pending hp,
    fun catalog type buffer => ⟨?_, fun cells hlt => ?_⟩⟩
  · subst hown
    exact hb.reachable.consistent.shows hb.origin?_eq hp
  · have hc := hb.reachable.consistent
    have ho := hb.origin?_eq
    refine ⟨hc.shows_shared ho, fun value hok => ?_, fun other value hne => ?_⟩
    · obtain ⟨hheap, hlayout⟩ := hc.perform_set_shared ho hok
      exact hc.overwritten (hc.perform _) hheap hlayout
    · exact hc.set_refused ho hne value
  · have hc := hr.consistent
    exact hc.overwritten (hc.perform _) rfl fun _ => .refl _
  · exact catalog.size_contents_perform buffer
  · exact catalog.heap.contents_allocate cells hlt

def eightIntegers : Catalog := (@Catalog.allocate Catalog.empty .int #[0, 1, 2, 3, 4, 5, 6, 7]).2

def sixByRows : Operation := .appendColumns 0 .int 2 3 .rowMajor (.borrowed ⟨0⟩)

def fourByColumns : Operation := .appendColumns 1 .int 2 2 .columnMajor (.borrowed ⟨0⟩)

def apart : Catalog := ((eightIntegers.perform sixByRows).1.perform fourByColumns).1

/-- The tables are merged, and the last of the four integers is overwritten. -/
def overlapping : Catalog :=
  ((apart.perform (.merge 0 1)).1.perform (.writeBuffer .int ⟨0⟩ 3 30)).1

theorem borrowed_stays_one_overlapping :
    overlapping.get ⟨0, 1, 4⟩ .int = .ok 30 ∧
      (overlapping.perform (@Site.set ⟨0, 1, 4⟩ .int 77)).1.get ⟨0, 1, 0⟩ .int = .ok 77 ∧
      (overlapping.perform (@Site.set ⟨0, 1, 4⟩ .int 77)).1.heap.contents
        (⟨0⟩ : SharedBuffer .int) = #[0, 1, 2, 77, 4, 5, 6, 7] := by
  have hrow : Brought overlapping ⟨0, 1, 0⟩ (@Origin.shared .int ⟨0⟩ 3) := by
    have hblock : Brought (eightIntegers.perform sixByRows).1 ⟨0, 1, 0⟩
        (@Origin.shared .int ⟨0⟩ 3) :=
      .appendColumns (Reachable.empty.allocate _) (by decide +kernel) (by decide : 1 < 2)
        (by decide : 0 < 3)
    have hapart : Brought apart ⟨0, 1, 0⟩ _ := hblock.perform fourByColumns nofun
    have hmerged := hapart.perform (.merge 0 1) (by simp)
    rw [show apart.moved (.merge 0 1) ⟨0, 1, 0⟩ = ⟨0, 1, 0⟩ by decide +kernel] at hmerged
    exact hmerged.perform (.writeBuffer .int ⟨0⟩ 3 30) nofun
  have hcol : Brought overlapping ⟨0, 1, 4⟩ (@Origin.shared .int ⟨0⟩ 3) := by
    have hapart : Brought apart ⟨1, 1, 1⟩ (@Origin.shared .int ⟨0⟩ 3) :=
      .appendColumns ((Reachable.empty.allocate _).perform sixByRows) (by decide +kernel)
        (by decide : 1 < 2) (by decide : 1 < 2)
    have hmerged := hapart.perform (.merge 0 1) (by simp)
    rw [show apart.moved (.merge 0 1) ⟨1, 1, 1⟩ = ⟨0, 1, 4⟩ by decide +kernel] at hmerged
    exact hmerged.perform (.writeBuffer .int ⟨0⟩ 3 30) nofun
  obtain ⟨hbrought, hshared, -⟩ := borrowed_stays_one
  obtain ⟨⟨hi, hread⟩, hset, -⟩ := hshared hcol
  have hwritten := hset 77 (by decide +kernel)
  have hshown := hwritten.shown ⟨0, 1, 0⟩ (hbrought hrow).1 (by decide +kernel)
  refine ⟨?_, hshown.1, hwritten.element.trans (by decide +kernel)⟩
  have helement : (overlapping.heap.contents (⟨0⟩ : SharedBuffer .int))[3]? = some 30 := by
    decide +kernel
  rw [Array.getElem?_eq_getElem hi] at helement
  exact (hread (by decide +kernel)).1.trans (congrArg Except.ok (Option.some.inj helement))

/-- A borrowed cell is not read while a row of the table waits for its last column, though the
buffer has the element. -/
theorem borrowed_cell_withheld :
    let column : Operation := .appendColumns 0 .int 2 1 .rowMajor (.copied #[8, 9])
    let row : Operation := .appendRows 0 .int 1 3 .rowMajor (.copied #[10, 11, 12])
    let catalog := (((eightIntegers.perform sixByRows).1.perform column).1.perform row).1
    Brought catalog ⟨0, 1, 0⟩ (@Origin.shared .int ⟨0⟩ 3) ∧
      (catalog.heap.contents (⟨0⟩ : SharedBuffer .int))[3]? = some 3 ∧
      catalog.get ⟨0, 1, 0⟩ .int = .error (.missingBlock 3) := by
  intro column row catalog
  have hblock : Brought (eightIntegers.perform sixByRows).1 ⟨0, 1, 0⟩
      (@Origin.shared .int ⟨0⟩ 3) :=
    .appendColumns (Reachable.empty.allocate _) (by decide +kernel) (by decide : 1 < 2)
      (by decide : 0 < 3)
  have hcolumn := hblock.perform column nofun
  have hp : (catalog.table 0).pending = some ⟨3, 1⟩ := by decide +kernel
  exact ⟨hcolumn.perform row nofun, by decide +kernel, Table.get_pending hp .int⟩

end Catalog

end TypedTable
