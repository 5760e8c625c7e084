import TypedTable.Proofs.Table.Cells
import TypedTable.Proofs.Table.Merging
import TypedTable.Table.Labels
import TypedTable.Table.Select

/-!
# Consistent tables answer

A consistent table gives a result or finds fault with what is asked for. It never answers that one of
its own invariants is broken.
-/

set_option autoImplicit false

namespace TypedTable

abbrev External {α : Type} (answer : Except TableFault α) : Prop :=
  Avoids (fun fault => fault.kind == .internal) answer

theorem External.kind_ne {α : Type} {answer : Except TableFault α} (h : External answer)
    {fault : TableFault} (he : answer = .error fault) : fault.kind ≠ .internal :=
  ne_of_beq_false (h fault he)

abbrev Warranted {σ α : Type} (answer : Except (Refused σ) α) : Prop :=
  Avoids (fun refused => refused.fault.kind == .internal) answer

section Warranted

variable {σ τ α β : Type}

theorem Warranted.kind_ne {answer : Except (Refused σ) α} (h : Warranted answer)
    {refused : Refused σ} (he : answer = .error refused) : refused.fault.kind ≠ .internal :=
  ne_of_beq_false (h refused he)

/-- A check is warranted, whatever it leaves, and what follows may rely on it. -/
theorem External.check {x : Except TableFault α} (hx : External x) {left : σ}
    {f : α → Except (Refused σ) β} (hf : ∀ a, x = .ok a → Warranted (f a)) :
    Warranted (refuse left x >>= f) :=
  (Avoids.mapError hx).bind fun a ha => hf a (mapError_eq_ok_iff.1 ha)

theorem Warranted.within {x : Except (Refused σ) α} (hx : Warranted x) (whole : σ → τ) :
    Warranted (within whole x) :=
  Avoids.mapError hx

end Warranted

theorem Interval.external_ofSize (start size : Nat) : External (Interval.ofSize start size) := by
  unfold Interval.ofSize
  split
  · exact .error rfl
  · split
    · exact .error rfl
    · exact .ok _

theorem Interval.external_ofBounds (lower upper : Nat) :
    External (Interval.ofBounds lower upper) := by
  unfold Interval.ofBounds
  split
  · exact .ok _
  · exact .error rfl

theorem RangeMap.warranted_insert {α : Type} (map : RangeMap α) (span : Interval) (value : α) :
    Warranted (map.insert span value) := by
  unfold RangeMap.insert
  split
  · exact .ok _
  · exact .error rfl

namespace Dense

variable {type : ScalarType} {heap : Heap}

theorem external_make (heap : Heap) (rows cols : Nat) (order : Order) (storage : Storage type) :
    External (make heap rows cols order storage) := by
  unfold make
  split
  · exact .error rfl
  · split
    · exact .error rfl
    · split
      · exact .error rfl
      · exact .ok _

theorem external_checkCell (dense : Dense type) (row col : Nat) :
    External (dense.checkCell row col) := by
  unfold checkCell
  split
  · exact .error rfl
  · split
    · exact .error rfl
    · exact .ok ()

theorem external_copyRectangle (dense : Dense type) (rows cols : Interval) (lead : Nat)
    (out : Array type.Carrier) (start : Nat) :
    External (dense.copyRectangle heap rows cols lead out start) := by
  apply (dense.external_checkCell rows.upper cols.upper).bind
  intro _ _
  dsimp only
  split
  · exact .error rfl
  · split
    · exact .error rfl
    · exact .ok _

theorem external_maskMissing (dense : Dense type) (mask : List Bool) (rows cols : Interval) :
    External (dense.maskMissing heap mask rows cols) := by
  apply (dense.external_checkCell rows.upper cols.upper).bind
  intro _ _
  split
  · exact .error rfl
  · split
    · exact .ok _
    · exact .ok _

end Dense

theorem Block.external_typed (block : Block) (type : ScalarType) : External (block.typed type) := by
  unfold Block.typed
  split
  · exact .ok _
  · exact .error rfl

theorem Block.warranted_set (heap : Heap) (block : Block) (type : ScalarType) (row col : Nat)
    (value : type.Carrier) : Warranted (block.set heap type row col value) := by
  refine (block.external_typed type).check fun dense _ => ?_
  have hwrite : Warranted (dense.set heap row col value) :=
    (dense.external_checkCell row col).check fun _ _ => .ok _
  exact (hwrite.within _).bind fun _ _ => .ok _

namespace Segment

variable {heap : Heap} {type : ScalarType}

theorem external_copyColumn (col : Nat) (segments : List Segment) (first : Nat)
    (out : Array type.Carrier) : External (copyColumn heap type col segments first out) := by
  induction segments generalizing first out with
  | nil => exact .ok out
  | cons segment below ih =>
    apply (segment.block.external_typed type).bind
    intro dense _
    apply (Interval.external_ofSize 0 dense.rows).bind
    intro rows _
    apply (dense.external_copyRectangle rows _ dense.rows out first).bind
    intro out _
    exact ih (first + dense.rows) out

theorem external_copySlice (rows cols part : Interval) (lead start : Nat) (segments : List Segment)
    (first : Nat) (out : Array type.Carrier) :
    External (copySlice heap type rows cols part lead start segments first out) := by
  induction segments generalizing first out with
  | nil => exact .ok out
  | cons segment below ih =>
    apply (segment.block.external_typed type).bind
    intro dense _
    apply (Interval.external_ofSize first dense.rows).bind
    intro covered _
    dsimp only
    split
    · exact ih (first + dense.rows) out
    · apply (Interval.external_ofBounds _ _).bind
      intro localRows _
      apply (Interval.external_ofBounds _ _).bind
      intro localCols _
      apply (dense.external_copyRectangle localRows localCols lead out _).bind
      intro out _
      exact ih (first + dense.rows) out

theorem external_maskMissing (part : Interval) (segments : List Segment) (mask : List Bool) :
    External (maskMissing heap part segments mask) := by
  induction segments generalizing mask with
  | nil => exact .ok mask
  | cons segment below ih =>
    apply (Interval.external_ofSize 0 segment.block.dense.rows).bind
    intro rows _
    apply (Interval.external_ofBounds _ _).bind
    intro cols _
    apply (segment.block.dense.external_maskMissing _ rows cols).bind
    intro top _
    exact (ih _).bind fun rest _ => .ok (top ++ rest)

end Segment

namespace Table

variable {heap : Heap} {table other : Table} {entry : Interval × Nat} {type : ScalarType}

theorem external_checkComplete (table : Table) : External table.checkComplete := by
  unfold checkComplete
  split
  · exact .error rfl
  · exact .ok ()

theorem external_checkRow (table : Table) (row : Nat) : External (table.checkRow row) :=
  .require rfl

theorem external_checkCol (table : Table) (col : Nat) : External (table.checkCol col) :=
  .require rfl

theorem external_allRows (table : Table) : External table.allRows := by
  unfold allRows
  split
  · exact .ok _
  · exact .error rfl

theorem external_allCols (table : Table) : External table.allCols := by
  unfold allCols
  split
  · exact .ok _
  · exact .error rfl

theorem external_eraseCleared (mask : List Bool) (row : Nat) (start : Option Nat)
    (rows : IndexSet) : External (eraseCleared mask row start rows) := by
  induction mask generalizing row start rows with
  | nil => exact .ok rows
  | cons valid rest ih =>
    cases valid with
    | false => cases start <;> exact ih _ _ _
    | true =>
      cases start with
      | none => exact ih _ _ _
      | some start => exact (Interval.external_ofBounds _ _).bind fun _ _ => ih _ _ _

theorem external_requestedSelection (table : Table) (key : String) :
    External (table.requestedSelection key) := by
  unfold requestedSelection
  split
  · exact .ok _
  · split
    · exact .ok _
    · exact .error rfl

theorem external_filledRows (table : Table) (rows : IndexSet) :
    External (table.filledRows rows) := by
  unfold filledRows
  split
  · exact table.external_allRows.bind fun all _ => .ok _
  · exact .ok _

theorem external_filledCols (table : Table) (cols : IndexSet) :
    External (table.filledCols cols) := by
  unfold filledCols
  split
  · exact table.external_allCols.bind fun all _ => .ok _
  · exact .ok _

theorem warranted_label (table : Table) (name : String) (col : Nat) :
    Warranted (table.label name col) :=
  table.external_checkComplete.check fun _ _ =>
    (table.external_checkCol col).check fun _ _ => .ok _

theorem external_labeledColumn (table : Table) (name : String) :
    External (table.labeledColumn name) := by
  unfold labeledColumn
  split
  · exact .ok _
  · exact .error rfl

theorem external_columnLabel (table : Table) (col : Nat) : External (table.columnLabel col) :=
  (table.external_checkCol col).bind fun _ _ => .ok _

theorem warranted_selectRows (table : Table) (key : String) (rows : Interval) :
    Warranted (table.selectRows key rows) :=
  table.external_checkComplete.check fun _ _ =>
    (table.external_checkRow rows.upper).check fun _ _ => .ok _

theorem warranted_selectCols (table : Table) (key : String) (cols : Interval) :
    Warranted (table.selectCols key cols) :=
  table.external_checkComplete.check fun _ _ =>
    (table.external_checkCol cols.upper).check fun _ _ => .ok _

theorem warranted_selectSlice (table : Table) (key : String) (rows cols : Interval) :
    Warranted (table.selectSlice key rows cols) :=
  table.external_checkComplete.check fun _ _ => .within
    ((table.warranted_selectRows key rows).bind fun added _ => added.warranted_selectCols key cols)
    _

theorem warranted_unselectRows (table : Table) (key : String) (rows : Interval) :
    Warranted (table.unselectRows key rows) := by
  apply table.external_checkComplete.check
  intro _ _
  split
  · exact .ok _
  · exact .ok _

theorem warranted_unselectCols (table : Table) (key : String) (cols : Interval) :
    Warranted (table.unselectCols key cols) := by
  apply table.external_checkComplete.check
  intro _ _
  split
  · exact .ok _
  · exact .ok _

theorem warranted_appendColumns (heap : Heap) (table : Table) (rows cols : Nat) (order : Order)
    (storage : Storage type) : Warranted (table.appendColumns heap rows cols order storage) :=
  table.external_checkComplete.check fun _ _ => External.check (.require rfl) fun _ _ =>
    (Dense.external_make heap rows cols order storage).check fun _ _ =>
      (Interval.external_ofSize table.cols cols).check fun span _ =>
        ((table.chains.warranted_insert span _).within _).bind fun _ _ => .ok _

namespace Consistent

theorem head_eq (h : table.Consistent heap) {col : Nat} (hc : col < table.cols) :
    ∃ entry ∈ table.chains.entries, table.head col = .ok entry.2 := by
  obtain ⟨entry, hm, hmem⟩ := h.exists_entry hc
  refine ⟨entry, hm, ?_⟩
  rw [head, RangeMap.find?_of_mem h.sorted hm hmem]

theorem external_chainType (h : table.Consistent heap) (hm : entry ∈ table.chains.entries) :
    External (table.arena.chainType entry.2) := by
  obtain ⟨type, htype, -⟩ := h.chainType_eq hm
  exact htype ▸ .ok type

theorem external_segments (h : table.Consistent heap) (hm : entry ∈ table.chains.entries) :
    External (table.arena.segments entry.2) := by
  obtain ⟨⟨type, hplaced⟩, -⟩ := h.supports entry hm
  refine .mapM fun placement hp => ?_
  obtain ⟨block, hblock, -⟩ := hplaced placement hp
  rw [Arena.segment, Arena.block_eq_ok.2 hblock]
  exact .ok _

theorem external_columnType (h : table.Consistent heap) (col : Nat) :
    External (table.columnType col) := by
  apply (table.external_checkCol col).bind
  intro _ hcol
  obtain ⟨entry, hm, hhead⟩ := h.head_eq (require_eq_ok.1 hcol)
  rw [hhead]
  exact h.external_chainType hm

theorem external_chainLength (h : table.Consistent heap) (col : Nat) :
    External (table.chainLength col) := by
  apply (table.external_checkCol col).bind
  intro _ hcol
  obtain ⟨entry, -, hhead⟩ := h.head_eq (require_eq_ok.1 hcol)
  rw [hhead]
  exact .ok _

/-- A cell out of bounds or of a table with pending rows is refused, any other one is found. -/
theorem external_locate (h : table.Consistent heap) (row col : Nat) :
    External (table.locate row col) := by
  by_cases hcell : table.pending = none ∧ row < table.rows ∧ col < table.cols
  · obtain ⟨hp, hr, hc⟩ := hcell
    obtain ⟨place, -, -, -, -, -, hlocate, -⟩ := h.exists_located hp hr hc
    exact hlocate ▸ .ok place
  · have hcheck : External (table.checkCell row col) :=
      table.external_checkComplete.bind fun _ _ => (table.external_checkRow row).bind fun _ _ =>
        table.external_checkCol col
    apply hcheck.bind
    intro _ hok
    exact absurd (checkCell_eq_ok.1 hok) hcell

theorem external_get (h : table.Consistent heap) (type : ScalarType) (row col : Nat) :
    External (table.get heap type row col) := by
  by_cases hcell : table.pending = none ∧ row < table.rows ∧ col < table.cols
  · obtain ⟨hp, hr, hc⟩ := hcell
    obtain ⟨cell, -, hget, hother⟩ := h.get_eq hp hr hc
    by_cases htype : type = cell.type
    · subst htype
      rw [hget]
      exact .ok _
    · rw [hother type htype]
      exact .error rfl
  · apply (h.external_locate row col).bind
    intro place hplace
    obtain ⟨hp, hr, hc, -⟩ := h.located_of_ok hplace
    exact absurd ⟨hp, hr, hc⟩ hcell

theorem warranted_set (h : table.Consistent heap) (type : ScalarType) (row col : Nat)
    (value : type.Carrier) : Warranted (table.set heap type row col value) := by
  apply (h.external_locate row col).check
  intro place hplace
  obtain ⟨-, -, -, entry, above, offset, below, block, hl⟩ := h.located_of_ok hplace
  rw [Arena.block_eq_ok.2 hl.block_eq, refuse_ok, ok_bind]
  exact ((block.warranted_set heap type _ _ value).within _).bind fun _ _ => .ok _

theorem external_extractColumn (h : table.Consistent heap) (type : ScalarType)
    (col expectedRows : Nat) (out : Array type.Carrier) :
    External (table.extractColumn heap type col expectedRows out) := by
  apply table.external_checkComplete.bind
  intro _ _
  apply (table.external_checkCol col).bind
  intro _ hcol
  refine Avoids.bind (.require rfl) fun _ _ => Avoids.bind (.require rfl) fun _ _ => ?_
  obtain ⟨entry, hm, hhead⟩ := h.head_eq (require_eq_ok.1 hcol)
  rw [hhead]
  exact (h.external_segments hm).bind fun segments _ =>
    Segment.external_copyColumn col segments 0 out

theorem external_extractSlice (h : table.Consistent heap) (type : ScalarType)
    (rows cols : Interval) (lead start : Nat) (out : Array type.Carrier) :
    External (table.extractSlice heap type rows cols lead start out) := by
  apply table.external_checkComplete.bind
  intro _ _
  apply (table.external_checkRow rows.upper).bind
  intro _ _
  apply (table.external_checkCol cols.upper).bind
  intro _ _
  refine Avoids.bind (.require rfl) fun _ _ => ?_
  refine Avoids.bind (.forM fun entry hm => ?_) fun _ _ => .foldlM (fun out entry hm => ?_) out
  · exact (h.external_chainType (h.mem_range_iff.1 hm).1).bind fun found _ => .require rfl
  · unfold copyChain
    split
    · exact .ok out
    · exact (h.external_segments (h.mem_range_iff.1 hm).1).bind fun segments _ =>
        Segment.external_copySlice rows cols _ lead start segments 0 out

theorem external_copyRows (h : table.Consistent heap) (type : ScalarType) (cols : Interval)
    (lead : Nat) (rows : List Interval) (start : Nat) (out : Array type.Carrier) :
    External (table.copyRows heap type cols lead rows start out) := by
  induction rows generalizing start out with
  | nil => exact .ok out
  | cons first later ih =>
    exact (h.external_extractSlice type first cols lead start out).bind fun out _ =>
      ih (start + first.size) out

theorem external_copySelected (h : table.Consistent heap) (type : ScalarType)
    (rows : List Interval) (lead : Nat) (cols : List Interval) (done : Nat)
    (out : Array type.Carrier) : External (table.copySelected heap type rows lead cols done out) := by
  induction cols generalizing done out with
  | nil => exact .ok out
  | cons first later ih =>
    exact (h.external_copyRows type first lead rows (done * lead) out).bind fun out _ =>
      ih (done + first.size) out

theorem external_extractSelection (h : table.Consistent heap) (type : ScalarType) (key : String)
    (order : Order) (lead : Nat) (out : Array type.Carrier) :
    External (table.extractSelection heap type key order lead out) := by
  apply table.external_checkComplete.bind
  intro _ _
  apply (table.external_requestedSelection key).bind
  intro requested _
  apply (table.external_filledRows requested.1.rows).bind
  intro rows _
  apply (table.external_filledCols requested.1.cols).bind
  intro cols _
  refine Avoids.bind (.require rfl) fun _ _ => Avoids.bind (.require rfl) fun _ _ => ?_
  cases order with
  | columnMajor =>
    exact (h.external_copySelected type rows.intervals lead cols.intervals 0 out).bind
      fun out _ => .ok _
  | rowMajor =>
    exact (h.external_copySelected type rows.intervals rows.count cols.intervals 0 _).bind
      fun dense _ => .ok _

theorem warranted_selectNonMissing (h : table.Consistent heap) (key : String) (fullRows : Bool) :
    Warranted (table.selectNonMissing heap key fullRows) := by
  apply table.external_checkComplete.check
  intro _ _
  refine table.external_allRows.check fun allRows _ =>
    table.external_allCols.check fun allCols _ => ?_
  refine External.check (.foldlM (fun mask cols _ => .foldlM (fun mask entry hm => ?_) mask) _)
    fun _ _ => (external_eraseCleared _ _ _ _).check fun _ _ => .ok _
  unfold maskChain
  split
  · exact .ok mask
  · exact (h.external_segments (h.mem_range_iff.1 hm).1).bind fun segments _ =>
      Segment.external_maskMissing _ segments mask

theorem tail?_isSome (h : table.Consistent heap) (hm : entry ∈ table.chains.entries) :
    ∃ tail, table.arena.tail? entry.2 = some tail := by
  obtain ⟨tail, -, htail, -⟩ := (h.apart.leads (mem_heads hm)).exists_last
  exact ⟨tail, htail⟩

theorem warranted_appendRows (h : table.Consistent heap) (rows cols : Nat) (order : Order)
    (storage : Storage type) : Warranted (table.appendRows heap rows cols order storage) := by
  unfold Table.appendRows
  split
  · exact warranted_appendColumns heap table rows cols order storage
  · have hpending : External (table.checkPendingRows rows) := by
      unfold checkPendingRows
      split
      · exact .require rfl
      · exact .ok ()
    refine hpending.check fun _ _ => (Interval.external_ofSize _ cols).check fun span _ => ?_
    refine External.check (.require rfl) fun _ _ => ?_
    refine External.check (.mapM fun entry hm => ?_) fun _ _ =>
      (Dense.external_make heap rows cols order storage).check fun _ _ => .ok _
    have hin := (h.mem_range_iff.1 hm).1
    refine Avoids.bind (.require rfl) fun _ _ => (h.external_chainType hin).bind fun found _ => ?_
    refine Avoids.bind (.require rfl) fun _ _ => ?_
    obtain ⟨tail, htail⟩ := h.tail?_isSome hin
    rw [htail]
    exact .ok tail

/-- A merge is refused without a fault of its own, whatever it leaves. -/
theorem merge_fault (h : table.Consistent heap) (ho : other.Consistent heap)
    {refused : Refused (Table × Table)} (hr : table.merge other = .error refused) :
    refused.fault.kind ≠ .internal := by
  rcases h.merge_cases ho with ⟨fault, hkind, hmerge⟩ | ⟨-, -, ⟨-, hmerge⟩ | ⟨-, -, hmerge⟩⟩
  · rw [hmerge] at hr
    cases hr
    exact hkind
  · rw [hmerge] at hr
    cases hr
  · rw [hmerge] at hr
    cases hr

end Consistent

structure Answering (heap : Heap) (table : Table) : Prop where
  columnType (col : Nat) : External (table.columnType col)
  chainLength (col : Nat) : External (table.chainLength col)
  labeledColumn (name : String) : External (table.labeledColumn name)
  columnLabel (col : Nat) : External (table.columnLabel col)
  get (type : ScalarType) (row col : Nat) : External (table.get heap type row col)
  extractColumn (type : ScalarType) (col expectedRows : Nat) (out : Array type.Carrier) :
    External (table.extractColumn heap type col expectedRows out)
  extractSlice (type : ScalarType) (rows cols : Interval) (lead start : Nat)
    (out : Array type.Carrier) : External (table.extractSlice heap type rows cols lead start out)
  extractSelection (type : ScalarType) (key : String) (order : Order) (lead : Nat)
    (out : Array type.Carrier) : External (table.extractSelection heap type key order lead out)

theorem Consistent.answering (h : table.Consistent heap) : table.Answering heap where
  columnType := h.external_columnType
  chainLength := h.external_chainLength
  labeledColumn := table.external_labeledColumn
  columnLabel := table.external_columnLabel
  get := h.external_get
  extractColumn := h.external_extractColumn
  extractSlice := h.external_extractSlice
  extractSelection := h.external_extractSelection

end Table

end TypedTable
