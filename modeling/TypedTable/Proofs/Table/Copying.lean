import TypedTable.Proofs.Interval.Members
import TypedTable.Proofs.Table.Cells
import TypedTable.Table.Select

/-!
# What extractions copy

A copied rectangle is followed from its blocks to the whole selection: each step puts some elements
into the output and leaves the rest of it as it was. In the end every selected cell is at its place.
-/

set_option autoImplicit false

namespace TypedTable

theorem Interval.ofBounds_eq_ok {lower upper : Nat} {span : Interval}
    (h : Interval.ofBounds lower upper = .ok span) : span.lower = lower ∧ span.upper = upper := by
  unfold Interval.ofBounds at h
  split at h
  · cases h
    exact ⟨rfl, rfl⟩
  · cases h

open TypedTable.Dense (target)

theorem Dense.target_inj {start lead row col row' col' : Nat} (hr : row < lead) (hr' : row' < lead)
    (h : target start lead row col = target start lead row' col') : row = row' ∧ col = col' := by
  have hc : col < col + col' + 1 := by omega
  have hc' : col' < col + col' + 1 := by omega
  refine Order.columnMajor.offset_inj hr hc hr' hc' ?_
  simp only [target] at h
  simp only [Order.offset]
  omega

/-- A target of a part of a rectangle that begins `rows` rows and `cols` columns into it. -/
theorem Dense.target_target (start lead rows cols row col : Nat) :
    target (target start lead rows cols) lead row col =
      target start lead (rows + row) (cols + col) := by
  simp only [target, Nat.add_mul]
  omega

section Puts

variable {α : Type} {lead start : Nat} {cell cell' : Nat → Nat → α → Prop}
  {inside inside' : Nat → Nat → Prop} {out middle later : Array α}

/-- The elements of a rectangle that are `inside` are put into `out`, column-major from `start` on
and with columns `lead` apart; `cell` says what they may be. -/
structure Puts (lead start : Nat) (cell : Nat → Nat → α → Prop) (inside : Nat → Nat → Prop)
    (out later : Array α) : Prop where
  size : later.size = out.size
  narrow : ∀ row col, inside row col → row < lead
  put : ∀ row col value, inside row col →
    later[target start lead row col]? = some value → cell row col value
  kept : ∀ place, (∀ row col, inside row col → target start lead row col ≠ place) →
    later[place]? = out[place]?

namespace Puts

theorem nothing (h : ∀ row col, ¬ inside row col) (out : Array α) :
    Puts lead start cell inside out out where
  size := rfl
  narrow row col hin := absurd hin (h row col)
  put row col _ hin := absurd hin (h row col)
  kept _ _ := rfl

theorem trans (h : Puts lead start cell inside out middle)
    (h' : Puts lead start cell inside' middle later) :
    Puts lead start cell (fun row col => inside row col ∨ inside' row col) out later where
  size := h'.size.trans h.size
  narrow row col hin := hin.elim (h.narrow row col) (h'.narrow row col)
  put row col value hin hv := by
    -- an element that both steps put has the place of no other one, since columns do not overlap
    by_cases hover : ∃ row' col', inside' row' col' ∧
        target start lead row' col' = target start lead row col
    · obtain ⟨row', col', hin', hsame⟩ := hover
      have hrow : row < lead := hin.elim (h.narrow row col) (h'.narrow row col)
      obtain ⟨rfl, rfl⟩ := Dense.target_inj (h'.narrow row' col' hin') hrow hsame
      exact h'.put row' col' value hin' hv
    · have hfirst : inside row col :=
        hin.resolve_right fun hin' => hover ⟨row, col, hin', rfl⟩
      rw [h'.kept _ fun row' col' hin' hsame => hover ⟨row', col', hin', hsame⟩] at hv
      exact h.put row col value hfirst hv
  kept place hout := by
    rw [h'.kept place fun row col hin => hout row col (.inr hin),
      h.kept place fun row col hin => hout row col (.inl hin)]

theorem of_iff (h : Puts lead start cell inside out later)
    (hi : ∀ row col, inside' row col ↔ inside row col) :
    Puts lead start cell inside' out later := by
  have hsame : inside' = inside := funext fun row => funext fun col => propext (hi row col)
  exact hsame ▸ h

theorem imp (h : Puts lead start cell inside out later)
    (hc : ∀ row col value, inside row col → cell row col value → cell' row col value) :
    Puts lead start cell' inside out later where
  size := h.size
  narrow := h.narrow
  put row col value hin hv := hc row col value hin (h.put row col value hin hv)
  kept := h.kept

/-- What is put into a part of a rectangle is put into the rectangle. -/
theorem shift {rows cols : Nat}
    (h : Puts lead (target start lead rows cols) cell inside out later)
    (hn : ∀ row col, inside row col → rows + row < lead) :
    Puts lead start (fun row col => cell (row - rows) (col - cols))
      (fun row col => rows ≤ row ∧ cols ≤ col ∧ inside (row - rows) (col - cols)) out later where
  size := h.size
  narrow := by
    rintro row col ⟨hr, hc, hin⟩
    have := hn _ _ hin
    omega
  put := by
    rintro row col value ⟨hr, hc, hin⟩ hv
    refine h.put _ _ value hin ?_
    rwa [Dense.target_target, Nat.add_sub_cancel' hr, Nat.add_sub_cancel' hc]
  kept place hout := by
    refine h.kept place fun row col hin => ?_
    rw [Dense.target_target]
    apply hout
    simpa using hin

theorem foldlM {ε β : Type} {steps : List β} {f : Array α → β → Except ε (Array α)}
    {part : β → Nat → Nat → Prop}
    (h : ∀ step ∈ steps, ∀ out later, f out step = .ok later →
      Puts lead start cell (part step) out later)
    (hok : steps.foldlM f out = .ok later) :
    Puts lead start cell (fun row col => ∃ step ∈ steps, part step row col) out later := by
  induction steps generalizing out with
  | nil =>
    cases hok
    exact .nothing (by simp) _
  | cons step steps ih =>
    rw [List.foldlM_cons] at hok
    obtain ⟨middle, hmiddle, hok⟩ := bind_eq_ok_iff.1 hok
    refine .of_iff ((h step (by simp) out middle hmiddle).trans
      (ih (fun step hm => h step (by simp [hm])) hok)) fun row col => ?_
    simp only [List.mem_cons, exists_eq_or_imp]

theorem foldl_zipIdx {β : Type} {steps : List β} {f : Array α → β × Nat → Array α}
    {part : Nat → Nat → Nat → Prop}
    (h : ∀ i step, steps[i]? = some step → ∀ out,
      Puts lead start cell (part i) out (f out (step, i))) (out : Array α) :
    Puts lead start cell (fun row col => ∃ i < steps.length, part i row col) out
      (steps.zipIdx.foldl f out) := by
  have hok : steps.zipIdx.foldlM (fun out step => (pure (f out step) : Except Empty (Array α))) out =
      .ok (steps.zipIdx.foldl f out) := List.foldlM_pure
  have hstep : ∀ step ∈ steps.zipIdx, ∀ out later : Array α,
      (pure (f out step) : Except Empty (Array α)) = .ok later →
        Puts lead start cell (part step.2) out later := by
    rintro ⟨step, i⟩ hm out later hlater
    cases hlater
    exact h i step (List.mk_mem_zipIdx_iff_getElem?.1 hm) out
  refine (foldlM hstep hok).of_iff fun row col => ?_
  constructor
  · rintro ⟨i, hi, hin⟩
    exact ⟨(steps[i], i), List.mk_mem_zipIdx_iff_getElem?.2 (List.getElem?_eq_getElem hi), hin⟩
  · rintro ⟨⟨step, i⟩, hm, hin⟩
    rw [List.mk_mem_zipIdx_iff_getElem?] at hm
    exact ⟨i, (List.getElem?_eq_some_iff.1 hm).1, hin⟩

theorem write {row col : Nat} {value : α} (hr : row < lead) (hv : cell row col value)
    (out : Array α) :
    Puts lead start cell (fun row' col' => row' = row ∧ col' = col) out
      (out.setIfInBounds (target start lead row col) value) where
  size := Array.size_setIfInBounds
  narrow := by
    rintro _ _ ⟨rfl, rfl⟩
    exact hr
  put := by
    rintro _ _ found ⟨rfl, rfl⟩ hfound
    rw [Array.getElem?_setIfInBounds_self] at hfound
    obtain ⟨-, hsame⟩ := Option.ite_none_right_eq_some.1 hfound
    exact Option.some.inj hsame ▸ hv
  kept place hout := Array.getElem?_setIfInBounds_ne (hout row col ⟨rfl, rfl⟩)

/-- The value with number `i` goes to row `row i` and column `col i`. -/
theorem overwrite {gap place : Nat} {values : List α} {row col : Nat → Nat}
    (hplace : ∀ i, place + i * gap = target start lead (row i) (col i))
    (hr : ∀ i < values.length, row i < lead)
    (hv : ∀ i value, values[i]? = some value → cell (row i) (col i) value) (out : Array α) :
    Puts lead start cell (fun row' col' => ∃ i < values.length, row' = row i ∧ col' = col i) out
      (overwrite gap place values out) := by
  refine foldl_zipIdx (fun i value hvalue out => ?_) out
  dsimp only
  rw [hplace]
  exact write (hr i (List.getElem?_eq_some_iff.1 hvalue).1) (hv i value hvalue) out

end Puts

end Puts

section Blocks

variable {type : ScalarType} {heap : Heap} {rows cols part : Interval} {lead start : Nat}
  {out later : Array type.Carrier}

theorem Dense.Filled.columnPart_eq {dense : Dense type} (h : dense.Filled heap) {col : Nat}
    (hr : rows.upper < dense.rows) (hc : col < dense.cols) :
    dense.columnPart heap rows col =
      rows.toList.map fun row => (dense.cell? heap row col).getD type.blank := by
  have hcell (row : Nat) (hrow : row ∈ rows) :
      dense.cell? heap row col = some ((dense.cell? heap row col).getD type.blank) := by
    obtain ⟨value, hvalue⟩ :=
      Option.isSome_iff_exists.1 (h.cell?_isSome (Nat.lt_of_le_of_lt hrow.2 hr) hc)
    rw [hvalue, Option.getD_some]
  unfold columnPart
  split
  next horder =>
    refine List.ext_getElem? fun i => ?_
    rw [Array.getElem?_toList, Array.getElem?_extract, List.getElem?_map]
    by_cases hi : i < rows.size
    · have hoffset : dense.offset rows.lower col + i = dense.offset (rows.lower + i) col := by
        simp only [offset, horder, Order.offset]
        omega
      have hvalue := hcell _ (Interval.lower_add_mem.2 hi)
      obtain ⟨hlt, -⟩ := Array.getElem?_eq_some_iff.1 hvalue
      rw [Interval.getElem?_toList.2 ⟨hi, rfl⟩, Option.map_some, ← hvalue, hoffset,
        if_pos (by omega)]
      rfl
    · rw [if_neg (by omega), List.getElem?_eq_none (by simpa using hi), Option.map_none]
  next => exact List.filterMap_eq_map_iff_forall_eq_some.2 fun row hrow =>
      hcell row (Interval.mem_toList.1 hrow)

theorem Dense.Filled.puts_copyColumns {dense : Dense type} (h : dense.Filled heap)
    (hr : rows.upper < dense.rows) (hc : cols.upper < dense.cols) (hl : rows.size ≤ lead)
    (out : Array type.Carrier) :
    Puts lead start
      (fun row col value => dense.cell? heap (rows.lower + row) (cols.lower + col) = some value)
      (fun row col => row < rows.size ∧ col < cols.size) out
      (dense.copyColumns heap rows cols lead out start) := by
  have hstep (done col : Nat) (hstep : cols.toList[done]? = some col) (out : Array type.Carrier) :
      Puts lead start
        (fun row col value => dense.cell? heap (rows.lower + row) (cols.lower + col) = some value)
        (fun row col => row < rows.size ∧ col = done) out
        (overwrite 1 (start + done * lead) (dense.columnPart heap rows col) out) := by
    obtain ⟨hdone, rfl⟩ := Interval.getElem?_toList.1 hstep
    have hcol : cols.lower + done < dense.cols :=
      Nat.lt_of_le_of_lt (Interval.lower_add_mem.2 hdone).2 hc
    have hplace (i : Nat) : start + done * lead + i * 1 = target start lead i done := by
      rw [target, Nat.mul_one]
    rw [h.columnPart_eq hr hcol]
    refine (Puts.overwrite hplace (fun i hi => ?_) (fun i value hv => ?_) out).of_iff
      fun row col => ?_
    · rw [List.length_map, Interval.length_toList] at hi
      exact Nat.lt_of_lt_of_le hi hl
    · rw [List.getElem?_map, Option.map_eq_some_iff] at hv
      obtain ⟨row, hrow, rfl⟩ := hv
      obtain ⟨hi, rfl⟩ := Interval.getElem?_toList.1 hrow
      obtain ⟨value, hvalue⟩ := Option.isSome_iff_exists.1
        (h.cell?_isSome (Nat.lt_of_le_of_lt (Interval.lower_add_mem.2 hi).2 hr) hcol)
      rw [hvalue, Option.getD_some]
    · simp
  refine (Puts.foldl_zipIdx hstep out).of_iff fun row col => ?_
  rw [Interval.length_toList]
  constructor
  · rintro ⟨hrow, hcol⟩
    exact ⟨col, hcol, hrow, rfl⟩
  · rintro ⟨done, hdone, hrow, rfl⟩
    exact ⟨hrow, hdone⟩

theorem Dense.Filled.puts_copyRectangle {dense : Dense type} (h : dense.Filled heap)
    (hok : dense.copyRectangle heap rows cols lead out start = .ok later) :
    Puts lead start
      (fun row col value => dense.cell? heap (rows.lower + row) (cols.lower + col) = some value)
      (fun row col => row < rows.size ∧ col < cols.size) out later := by
  obtain ⟨u, hcheck, hok⟩ := bind_eq_ok_iff.1 hok
  obtain ⟨hr, hc⟩ := Dense.checkCell_eq_ok.1 hcheck
  dsimp only at hok
  split at hok
  next => cases hok
  next hlead =>
    split at hok
    next => cases hok
    next =>
      cases hok
      exact h.puts_copyColumns hr hc (Nat.le_of_not_lt hlead) out

/-- The first of the segments of a chain is in the block of its first placement. -/
theorem Arena.segments_cons {arena : Arena} {placement : Placement} {below : List Placement}
    {segments : List Segment} (hs : (placement :: below).mapM arena.segment = .ok segments) :
    ∃ block rest, arena.blocks[placement.block]? = some block ∧
      segments = ⟨block, placement.offset⟩ :: rest ∧ below.mapM arena.segment = .ok rest := by
  rw [List.mapM_cons] at hs
  obtain ⟨segment, hsegment, hs⟩ := bind_eq_ok_iff.1 hs
  obtain ⟨rest, hrest, hs⟩ := bind_eq_ok_iff.1 hs
  obtain ⟨block, hblock, hsegment⟩ := bind_eq_ok_iff.1 hsegment
  cases hsegment
  cases hs
  exact ⟨block, rest, Arena.block_eq_ok.1 hblock, rfl, hrest⟩

theorem Dense.Filled.puts_hit {dense : Dense type} (h : dense.Filled heap)
    {first offset : Nat} {covered hit localRows localCols : Interval}
    (hlead : rows.size ≤ lead) (hpart : cols.lower ≤ part.lower) (hoffset : offset ≤ part.lower)
    (hcovered : Interval.ofSize first dense.rows = .ok covered)
    (hhit : covered.intersect rows = some hit)
    (hrows : Interval.ofBounds (hit.lower - first) (hit.upper - first) = .ok localRows)
    (hcols : Interval.ofBounds (part.lower - offset) (part.upper - offset) = .ok localCols)
    (hok : dense.copyRectangle heap localRows localCols lead out
      (target start lead (hit.lower - rows.lower) (part.lower - cols.lower)) = .ok later) :
    Puts lead start
      (fun row col value => dense.cell? heap (rows.lower + row - first)
        (cols.lower + col - offset) = some value)
      (fun row col => (row < rows.size ∧ rows.lower + row ∈ covered) ∧ cols.lower + col ∈ part)
      out later := by
  obtain ⟨-, hlower, hupper⟩ := Interval.ofSize_eq_ok hcovered
  obtain ⟨hrow, hrow'⟩ := Interval.ofBounds_eq_ok hrows
  obtain ⟨hcol, hcol'⟩ := Interval.ofBounds_eq_ok hcols
  have hmem := Interval.mem_of_intersect hhit
  have hfirst := (hmem hit.lower).1 ⟨Nat.le_refl _, hit.lower_le_upper⟩
  have hlast := (hmem hit.upper).1 ⟨hit.lower_le_upper, Nat.le_refl _⟩
  simp only [Interval.mem_def] at hmem hfirst hlast
  have hput := (h.puts_copyRectangle hok).shift fun row col hin => by
    simp only [Interval.size] at hin hlead
    omega
  refine (hput.imp fun row col value hin hv => ?_).of_iff fun row col => ?_
  · have hlocal : hit.lower - first + (row - (hit.lower - rows.lower)) =
        rows.lower + row - first := by
      omega
    have hlocal' : part.lower - offset + (col - (part.lower - cols.lower)) =
        cols.lower + col - offset := by
      omega
    rwa [hrow, hcol, hlocal, hlocal'] at hv
  · have := hmem (rows.lower + row)
    have := part.lower_le_upper
    simp only [Interval.mem_def, Interval.size]
    omega

theorem Segment.copySlice_cons {segment : Segment} {below : List Segment} {first : Nat}
    (hok : copySlice heap type rows cols part lead start (segment :: below) first out =
      .ok later) :
    ∃ dense covered middle, segment.block.typed type = .ok dense ∧
      Interval.ofSize first dense.rows = .ok covered ∧
      (covered.intersect rows = none ∧ middle = out ∨
        ∃ hit localRows localCols, covered.intersect rows = some hit ∧
          Interval.ofBounds (hit.lower - first) (hit.upper - first) = .ok localRows ∧
          Interval.ofBounds (part.lower - segment.offset) (part.upper - segment.offset) =
            .ok localCols ∧
          dense.copyRectangle heap localRows localCols lead out
            (target start lead (hit.lower - rows.lower) (part.lower - cols.lower)) = .ok middle) ∧
      copySlice heap type rows cols part lead start below (first + dense.rows) middle =
        .ok later := by
  obtain ⟨dense, hdense, hok⟩ := bind_eq_ok_iff.1 hok
  obtain ⟨covered, hcovered, hok⟩ := bind_eq_ok_iff.1 hok
  dsimp only at hok
  split at hok
  next hnone => exact ⟨dense, covered, out, hdense, hcovered, .inl ⟨hnone, rfl⟩, hok⟩
  next hit hhit =>
    obtain ⟨localRows, hrows, hok⟩ := bind_eq_ok_iff.1 hok
    obtain ⟨localCols, hcols, hok⟩ := bind_eq_ok_iff.1 hok
    obtain ⟨middle, hmiddle, hok⟩ := bind_eq_ok_iff.1 hok
    exact ⟨dense, covered, middle, hdense, hcovered,
      .inr ⟨hit, localRows, localCols, hhit, hrows, hcols, hmiddle⟩, hok⟩

theorem Dense.Filled.puts_segment {dense : Dense type} (h : dense.Filled heap)
    {first offset : Nat} {covered : Interval} {middle : Array type.Carrier}
    (hlead : rows.size ≤ lead) (hpart : cols.lower ≤ part.lower) (hoffset : offset ≤ part.lower)
    (hcovered : Interval.ofSize first dense.rows = .ok covered)
    (hmiddle : covered.intersect rows = none ∧ middle = out ∨
      ∃ hit localRows localCols, covered.intersect rows = some hit ∧
        Interval.ofBounds (hit.lower - first) (hit.upper - first) = .ok localRows ∧
        Interval.ofBounds (part.lower - offset) (part.upper - offset) = .ok localCols ∧
        dense.copyRectangle heap localRows localCols lead out
          (target start lead (hit.lower - rows.lower) (part.lower - cols.lower)) = .ok middle) :
    Puts lead start
      (fun row col value => dense.cell? heap (rows.lower + row - first)
        (cols.lower + col - offset) = some value)
      (fun row col => (row < rows.size ∧ rows.lower + row ∈ covered) ∧ cols.lower + col ∈ part)
      out middle := by
  rcases hmiddle with ⟨hnone, rfl⟩ | ⟨hit, localRows, localCols, hhit, hrows, hcols, hmiddle⟩
  · refine .nothing (fun row col hin => ?_) middle
    exact Interval.intersect_eq_none_iff.1 hnone _ hin.1.2 (Interval.lower_add_mem.2 hin.1.1)
  · exact h.puts_hit hlead hpart hoffset hcovered hhit hrows hcols hmiddle

theorem Segment.puts_copySlice {arena : Arena} {chain : List Placement} {segments : List Segment}
    {first : Nat} (hs : chain.mapM arena.segment = .ok segments)
    (hoffset : ∀ placement ∈ chain, placement.offset ≤ part.lower)
    (hfilled : ∀ block ∈ arena.blocks, block.Filled heap) (hpart : cols.lower ≤ part.lower)
    (hlead : rows.size ≤ lead)
    (hok : copySlice heap type rows cols part lead start segments first out = .ok later) :
    Puts lead start
      (fun row col value =>
        (arena.column heap (cols.lower + col) chain)[rows.lower + row - first]? =
          some ⟨type, value⟩)
      (fun row col => (row < rows.size ∧ first ≤ rows.lower + row ∧
        rows.lower + row < first + arena.height chain) ∧ cols.lower + col ∈ part)
      out later := by
  -- by induction on the chain: each block puts the rows that it has, counted from `first`
  induction chain generalizing segments first out with
  | nil =>
    cases hs
    cases hok
    refine .nothing (fun row col => ?_) _
    simp only [Arena.height]
    omega
  | cons placement below ih =>
    obtain ⟨block, rest, hblock, rfl, hrest⟩ := Arena.segments_cons hs
    obtain ⟨dense, covered, middle, hdense, hcovered, hmiddle, hbelow⟩ := copySlice_cons hok
    obtain rfl := Block.typed_eq_ok hdense
    obtain ⟨-, hlower, hupper⟩ := Interval.ofSize_eq_ok hcovered
    have hheight : arena.height (placement :: below) = dense.rows + arena.height below := by
      simp [Arena.height, hblock, Block.rows]
    have hcolumn (col : Nat) : arena.column heap col (placement :: below) =
        Block.column heap ⟨type, dense⟩ (col - placement.offset) ++ arena.column heap col below :=
      Arena.column_cons hblock
    have hlength (col : Nat) : (Block.column heap ⟨type, dense⟩ col).length = dense.rows :=
      Block.length_column heap _ col
    have htop := Dense.Filled.puts_segment (hfilled _ (Array.mem_of_getElem? hblock)) hlead hpart
      (hoffset placement (by simp)) hcovered hmiddle
    have hdown := ih hrest (fun p hp => hoffset p (by simp [hp])) hbelow
    refine .of_iff (.trans (htop.imp fun row col value hin hv => ?_)
      (hdown.imp fun row col value hin hv => ?_)) fun row col => ?_
    · have hin := hin.1.2
      rw [Interval.mem_def] at hin
      rw [hcolumn, List.getElem?_append_left (by rw [hlength]; omega),
        Block.getElem?_column heap _ _ (by simp only [Block.rows]; omega), Block.cell]
      dsimp only
      rw [hv]
      rfl
    · rw [hcolumn, List.getElem?_append_right (by rw [hlength]; omega), hlength, Nat.sub_sub, hv]
    · simp only [Interval.mem_def]
      omega

end Blocks

namespace Table

variable {heap : Heap} {table : Table} {type : ScalarType} {rows cols : Interval}
  {lead start : Nat} {out later : Array type.Carrier}

def Holds (heap : Heap) (table : Table) (row col : Nat) {type : ScalarType} (value : type.Carrier) :
    Prop :=
  (table.column heap col)[row]? = some ⟨type, value⟩

namespace Consistent

/-- A block of a chain begins at one of the columns up to the first of the chain. -/
theorem offset_le (h : table.Consistent heap) {entry : Interval × Nat}
    (hm : entry ∈ table.chains.entries) {placement : Placement}
    (hp : placement ∈ table.arena.chain entry.2) : placement.offset ≤ entry.1.lower := by
  obtain ⟨⟨type, hplaced⟩, -⟩ := h.supports entry hm
  obtain ⟨block, -, -, hoffset, -⟩ := hplaced placement hp
  exact hoffset

theorem puts_copyChain (h : table.Consistent heap) (hp : table.pending = none)
    {entry : Interval × Nat} (hm : entry ∈ table.chains.entries) (hr : rows.upper < table.rows)
    (hlead : rows.size ≤ lead)
    (hok : copyChain heap table.arena type rows cols lead start out entry = .ok later) :
    Puts lead start
      (fun row col value => table.Holds heap (rows.lower + row) (cols.lower + col) value)
      (fun row col => row < rows.size ∧ col < cols.size ∧ cols.lower + col ∈ entry.1) out
      later := by
  unfold copyChain at hok
  split at hok
  next hnone =>
    cases hok
    refine .nothing (fun row col hin => ?_) _
    exact Interval.intersect_eq_none_iff.1 hnone _ hin.2.2 (Interval.lower_add_mem.2 hin.2.1)
  next part hpart =>
    obtain ⟨segments, hsegments, hok⟩ := bind_eq_ok_iff.1 hok
    have hmem := Interval.mem_of_intersect hpart
    have hlower := (hmem part.lower).1 ⟨Nat.le_refl _, part.lower_le_upper⟩
    have hput := Segment.puts_copySlice hsegments
      (fun placement hplacement => Nat.le_trans (h.offset_le hm hplacement) hlower.1.1) h.filled
      hlower.2.1 hlead hok
    refine (hput.imp fun row col value hin hv => ?_).of_iff fun row col => ?_
    · rwa [Holds, h.column_of_mem hm ((hmem _).1 hin.2).1]
    · rw [h.height_eq hp hm, hmem, Interval.lower_add_mem]
      constructor
      · rintro ⟨hrow, hcol, hin⟩
        have := (Interval.lower_add_mem.2 hrow).2
        exact ⟨⟨hrow, Nat.zero_le _, by omega⟩, hin, hcol⟩
      · rintro ⟨⟨hrow, -⟩, hin, hcol⟩
        exact ⟨hrow, hcol, hin⟩

theorem puts_extractSlice (h : table.Consistent heap)
    (hok : table.extractSlice heap type rows cols lead start out = .ok later) :
    Puts lead start
      (fun row col value => table.Holds heap (rows.lower + row) (cols.lower + col) value)
      (fun row col => row < rows.size ∧ col < cols.size) out later := by
  obtain ⟨u, hcomplete, hok⟩ := bind_eq_ok_iff.1 hok
  obtain ⟨v, hrow, hok⟩ := bind_eq_ok_iff.1 hok
  obtain ⟨w, hcol, hok⟩ := bind_eq_ok_iff.1 hok
  obtain ⟨x, hlead, hok⟩ := bind_eq_ok_iff.1 hok
  obtain ⟨y, -, hok⟩ := bind_eq_ok_iff.1 hok
  have hp : table.pending = none := checkComplete_eq_ok.1 hcomplete
  have hput := Puts.foldlM (fun entry hm out later hstep =>
    h.puts_copyChain hp (h.mem_range_iff.1 hm).1 (require_eq_ok.1 hrow) (require_eq_ok.1 hlead)
      hstep) hok
  refine hput.of_iff fun row col => ?_
  constructor
  · rintro ⟨hr, hc⟩
    have hmem : cols.lower + col ∈ cols := Interval.lower_add_mem.2 hc
    obtain ⟨entry, hm, hin⟩ :=
      h.exists_entry (Nat.lt_of_le_of_lt hmem.2 (require_eq_ok.1 hcol))
    refine ⟨entry, h.mem_range_iff.2 ⟨hm, Interval.meets_iff.2 ?_⟩, hr, hc, hin⟩
    rw [Interval.mem_def] at hmem hin
    omega
  · rintro ⟨entry, -, hr, hc, -⟩
    exact ⟨hr, hc⟩

end Consistent

def Listed (heap : Heap) (table : Table) (rows cols : List Nat) (i j : Nat)
    (value : type.Carrier) : Prop :=
  ∃ row col, rows[i]? = some row ∧ cols[j]? = some col ∧ table.Holds heap row col value

def Copies (heap : Heap) (table : Table) (rows cols : List Nat) (lead start : Nat)
    (out later : Array type.Carrier) : Prop :=
  Puts lead start (table.Listed heap rows cols) (fun i j => i < rows.length ∧ j < cols.length) out
    later

namespace Copies

variable {rows cols below right : List Nat} {middle : Array type.Carrier}

theorem append_rows (h : table.Copies heap rows cols lead start out middle)
    (hb : table.Copies heap below cols lead (start + rows.length) middle later)
    (hl : (rows ++ below).length ≤ lead) :
    table.Copies heap (rows ++ below) cols lead start out later := by
  have hstart : start + rows.length = target start lead rows.length 0 := by simp [target]
  rw [hstart] at hb
  rw [List.length_append] at hl
  have hbelow := Puts.shift hb fun i j hin => by omega
  refine .of_iff (.trans (.imp h fun i j value hin hv => ?_)
    (hbelow.imp fun i j value hin hv => ?_)) fun i j => ?_
  · obtain ⟨row, col, hr, hc, hv⟩ := hv
    exact ⟨row, col, (List.getElem?_append_left hin.1).trans hr, hc, hv⟩
  · obtain ⟨row, col, hr, hc, hv⟩ := hv
    exact ⟨row, col, (List.getElem?_append_right hin.1).trans hr, hc, hv⟩
  · rw [List.length_append]
    omega

theorem append_cols (h : table.Copies heap rows cols lead start out middle)
    (hr : table.Copies heap rows right lead (start + cols.length * lead) middle later) :
    table.Copies heap rows (cols ++ right) lead start out later := by
  have hstart : start + cols.length * lead = target start lead 0 cols.length := by simp [target]
  rw [hstart] at hr
  have hright := Puts.shift hr fun i j hin => by
    rw [Nat.zero_add]
    exact hr.narrow i j hin
  refine .of_iff (.trans (.imp h fun i j value hin hv => ?_)
    (hright.imp fun i j value hin hv => ?_)) fun i j => ?_
  · obtain ⟨row, col, hrow, hc, hv⟩ := hv
    exact ⟨row, col, hrow, (List.getElem?_append_left hin.2).trans hc, hv⟩
  · obtain ⟨row, col, hrow, hc, hv⟩ := hv
    exact ⟨row, col, hrow, (List.getElem?_append_right hin.2.1).trans hc, hv⟩
  · rw [List.length_append]
    omega

end Copies

namespace Consistent

theorem copies_extractSlice (h : table.Consistent heap)
    (hok : table.extractSlice heap type rows cols lead start out = .ok later) :
    table.Copies heap rows.toList cols.toList lead start out later := by
  refine .of_iff (.imp (h.puts_extractSlice hok) fun row col value hin hv => ?_) fun row col => ?_
  · exact ⟨_, _, Interval.getElem?_toList.2 ⟨hin.1, rfl⟩, Interval.getElem?_toList.2 ⟨hin.2, rfl⟩,
      hv⟩
  · rw [Interval.length_toList, Interval.length_toList]

theorem copies_copyRows (h : table.Consistent heap) {rows : List Interval}
    (hlead : (rows.flatMap Interval.toList).length ≤ lead)
    (hok : table.copyRows heap type cols lead rows start out = .ok later) :
    table.Copies heap (rows.flatMap Interval.toList) cols.toList lead start out later := by
  induction rows generalizing start out with
  | nil =>
    cases hok
    exact .nothing (by simp) _
  | cons first rows ih =>
    obtain ⟨middle, hmiddle, hok⟩ := bind_eq_ok_iff.1 hok
    rw [List.flatMap_cons] at hlead ⊢
    refine (h.copies_extractSlice hmiddle).append_rows ?_ hlead
    rw [Interval.length_toList]
    exact ih (by rw [List.length_append] at hlead; omega) hok

theorem copies_copySelected (h : table.Consistent heap) {rows cols : List Interval} {done : Nat}
    (hlead : (rows.flatMap Interval.toList).length ≤ lead)
    (hok : table.copySelected heap type rows lead cols done out = .ok later) :
    table.Copies heap (rows.flatMap Interval.toList) (cols.flatMap Interval.toList) lead
      (done * lead) out later := by
  induction cols generalizing done out with
  | nil =>
    cases hok
    exact .nothing (by simp) _
  | cons first cols ih =>
    obtain ⟨middle, hmiddle, hok⟩ := bind_eq_ok_iff.1 hok
    rw [List.flatMap_cons]
    refine (h.copies_copyRows hlead hmiddle).append_cols ?_
    rw [Interval.length_toList, ← Nat.add_mul]
    exact ih hok

end Consistent

theorem allRows_eq_ok_iff {span : Interval} :
    table.allRows = .ok span ↔ Interval.ofSize 0 table.rows = .ok span := by
  unfold allRows
  cases Interval.ofSize 0 table.rows <;> simp

theorem allCols_eq_ok_iff {span : Interval} :
    table.allCols = .ok span ↔ Interval.ofSize 0 table.cols = .ok span := by
  unfold allCols
  cases Interval.ofSize 0 table.cols <;> simp

theorem toList_filled {set filled : IndexSet} {all : Except TableFault Interval} {bound : Nat}
    (ha : ∀ span, all = .ok span → Interval.ofSize 0 bound = .ok span)
    (hok : (if set.isEmpty then do return set.insert (← all) else .ok set) = .ok filled) :
    filled.toList = set.orAll bound := by
  rw [IndexSet.orAll]
  split at hok
  next hempty =>
    obtain ⟨span, hspan, hok⟩ := bind_eq_ok_iff.1 hok
    obtain ⟨hpos, hlower, hupper⟩ := Interval.ofSize_eq_ok (ha span hspan)
    have hsize : span.size = bound := by
      simp only [Interval.size]
      omega
    cases hok
    rw [if_pos hempty, IndexSet.isEmpty_iff.1 hempty]
    simp [IndexSet.insert, IndexSet.insertInto, IndexSet.empty, IndexSet.toList, Interval.toList,
      hsize, hlower, List.range_eq_range']
  next hempty =>
    cases hok
    rw [if_neg hempty]

/-- `later` is `out` with the cells of some rows and columns put in, in the order of the lists; the
leading dimension `lead` is the distance of two columns, or of two rows in row-major order. -/
structure Extracted (heap : Heap) (table : Table) (type : ScalarType) (rows cols : List Nat)
    (order : Order) (lead : Nat) (out later : Array type.Carrier) : Prop where
  size : later.size = out.size
  copied : ∀ i j row col, rows[i]? = some row → cols[j]? = some col →
    ∃ value, table.get heap type row col = .ok value ∧
      later[order.offset i j lead lead]? = some value
  kept : ∀ place, (∀ i j, i < rows.length → j < cols.length →
    order.offset i j lead lead ≠ place) → later[place]? = out[place]?

namespace Consistent

theorem get_of_holds (h : table.Consistent heap) (hp : table.pending = none) {row col : Nat}
    {value : type.Carrier} (hv : table.Holds heap row col value) :
    table.get heap type row col = .ok value := by
  have hread := hv
  rw [Holds, column_eq_map, List.getElem?_map] at hread
  obtain ⟨origin, horigin, -⟩ := Option.map_eq_some_iff.1 hread
  obtain ⟨hc, -⟩ := h.exists_block horigin
  have hr : row < table.rows := by
    rw [← h.length_column hp hc]
    exact (List.getElem?_eq_some_iff.1 hv).1
  obtain ⟨cell, hcell, hget, -⟩ := h.get_eq hp hr hc
  obtain rfl := Option.some.inj (hcell.symm.trans hv)
  exact hget

theorem holds_of_get (h : table.Consistent heap) {row col : Nat} {value : type.Carrier}
    (hget : table.get heap type row col = .ok value) : table.Holds heap row col value := by
  obtain ⟨place, hplace, -⟩ := bind_eq_ok_iff.1 hget
  obtain ⟨hp, hr, hc, -⟩ := h.located_of_ok hplace
  obtain ⟨cell, hcell, hsame, hother⟩ := h.get_eq hp hr hc
  by_cases htype : type = cell.type
  · subst htype
    obtain rfl := Except.ok.inj (hsame.symm.trans hget)
    exact hcell
  · rw [hother type htype] at hget
    cases hget

end Consistent

theorem Copies.extracted (h : table.Consistent heap) (hp : table.pending = none)
    {rows cols : List Nat} (hneeded : lead * (cols.length - 1) + rows.length ≤ out.size)
    (hc : table.Copies heap rows cols lead 0 out later) :
    table.Extracted heap type rows cols .columnMajor lead out later where
  size := hc.size
  copied := by
    intro i j row col hrow hcol
    obtain ⟨hi, -⟩ := List.getElem?_eq_some_iff.1 hrow
    obtain ⟨hj, -⟩ := List.getElem?_eq_some_iff.1 hcol
    have hplace : target 0 lead i j = Order.columnMajor.offset i j lead lead := by
      simp [target, Order.offset]
    have hlt : target 0 lead i j < later.size := by
      have := Nat.mul_le_mul_left lead (Nat.le_sub_one_of_lt hj)
      rw [hc.size, target, Nat.mul_comm j lead]
      omega
    have hvalue := Array.getElem?_eq_getElem hlt
    obtain ⟨row', col', hrow', hcol', hv⟩ := hc.put i j _ ⟨hi, hj⟩ hvalue
    obtain rfl := Option.some.inj (hrow.symm.trans hrow')
    obtain rfl := Option.some.inj (hcol.symm.trans hcol')
    exact ⟨_, h.get_of_holds hp hv, hplace ▸ hvalue⟩
  kept place hout := by
    refine hc.kept place fun i j hin => ?_
    have := hout i j hin.1 hin.2
    simpa [target, Order.offset] using this

theorem length_chunksExact {α : Type} (size : Nat) (elements : Array α) :
    (chunksExact size elements).length = elements.size / size := by
  rw [chunksExact, List.length_map, List.length_range]

theorem chunk_eq {α : Type} {size place : Nat} {elements : Array α} {chunk : List α}
    (h : (chunksExact size elements)[place]? = some chunk) :
    place < elements.size / size ∧
      chunk = (elements.extract (place * size) (place * size + size)).toList := by
  rw [chunksExact, List.getElem?_map, Option.map_eq_some_iff] at h
  obtain ⟨found, hfound, rfl⟩ := h
  obtain ⟨hplace, rfl⟩ := List.getElem?_eq_some_iff.1 hfound
  rw [List.length_range] at hplace
  rw [List.getElem_range]
  exact ⟨hplace, rfl⟩

section Transpose

variable {α : Type} {rows cols : Nat} {dense : Array α} (hsize : dense.size = rows * cols)
  (hlead : cols ≤ lead)

include hsize hlead

/-- One column of the input becomes one place of every row of the output. -/
theorem puts_column {col : Nat} {column : List α}
    (hcolumn : (chunksExact rows dense)[col]? = some column) (out : Array α) :
    Puts lead 0 (fun col row value => dense[col * rows + row]? = some value)
      (fun col' row => col' = col ∧ row < rows) out (overwrite lead col column out) := by
  obtain ⟨hcol, rfl⟩ := chunk_eq hcolumn
  have hrows : 0 < rows := by
    by_contra hnone
    rw [Nat.eq_zero_of_not_pos hnone, Nat.div_zero] at hcol
    exact Nat.not_lt_zero col hcol
  rw [hsize, Nat.mul_div_cancel_left _ hrows] at hcol
  have hend : col * rows + rows ≤ dense.size := by
    rw [hsize, ← Nat.succ_mul, Nat.mul_comm rows]
    exact Nat.mul_le_mul_right rows hcol
  have hplace (i : Nat) : col + i * lead = target 0 lead col i := by
    rw [target, Nat.zero_add, Nat.add_comm]
  have hlength : (dense.extract (col * rows) (col * rows + rows)).toList.length = rows := by
    rw [Array.length_toList, Array.size_extract, Nat.min_eq_left hend, Nat.add_sub_cancel_left]
  refine (Puts.overwrite hplace (fun i hi => Nat.lt_of_lt_of_le hcol hlead)
    (fun i value hv => ?_) out).of_iff fun col' row => ?_
  · rw [Array.getElem?_toList, Array.getElem?_extract] at hv
    exact (Option.ite_none_right_eq_some.1 hv).2
  · rw [hlength]
    constructor
    · rintro ⟨rfl, hrow⟩
      exact ⟨row, hrow, rfl, rfl⟩
    · rintro ⟨i, hi, rfl, rfl⟩
      exact ⟨rfl, hi⟩

/-- Rows and columns change places: the elements of a row are adjacent in the output. -/
theorem puts_transpose (out : Array α) :
    Puts lead 0 (fun col row value => dense[col * rows + row]? = some value)
      (fun col row => col < cols ∧ row < rows) out (transpose rows lead dense out) := by
  have hstep (col : Nat) (column : List α)
      (hcolumn : (chunksExact rows dense)[col]? = some column) :=
    puts_column hsize hlead hcolumn
  refine (Puts.foldl_zipIdx hstep out).of_iff fun col row => ?_
  rw [length_chunksExact, hsize]
  constructor
  · rintro ⟨hcol, hrow⟩
    refine ⟨col, ?_, rfl, hrow⟩
    rwa [Nat.mul_div_cancel_left _ (Nat.zero_lt_of_lt hrow)]
  · rintro ⟨place, hplace, rfl, hrow⟩
    rw [Nat.mul_div_cancel_left _ (Nat.zero_lt_of_lt hrow)] at hplace
    exact ⟨hplace, hrow⟩

end Transpose

theorem Copies.extracted_transpose (h : table.Consistent heap) (hp : table.pending = none)
    {rows cols : List Nat} {dense : Array type.Carrier} (hlead : cols.length ≤ lead)
    (hneeded : lead * (rows.length - 1) + cols.length ≤ out.size)
    (hd : table.Copies heap rows cols rows.length 0
      (Array.replicate (rows.length * cols.length) type.blank) dense) :
    table.Extracted heap type rows cols .rowMajor lead out
      (transpose rows.length lead dense out) := by
  have hput := puts_transpose (hd.size.trans Array.size_replicate) hlead out
  have hplace (i j : Nat) : target 0 lead j i = Order.rowMajor.offset i j lead lead := by
    rw [target, Nat.zero_add, Order.offset]
  refine ⟨hput.size, ?_, fun place hout => ?_⟩
  · intro i j row col hrow hcol
    obtain ⟨hi, -⟩ := List.getElem?_eq_some_iff.1 hrow
    obtain ⟨hj, -⟩ := List.getElem?_eq_some_iff.1 hcol
    have hlt : target 0 lead j i < (transpose rows.length lead dense out).size := by
      have := Nat.mul_le_mul_left lead (Nat.le_sub_one_of_lt hi)
      rw [hput.size, target, Nat.mul_comm i lead]
      omega
    have hvalue := Array.getElem?_eq_getElem hlt
    have hsource := hput.put j i _ ⟨hj, hi⟩ hvalue
    obtain ⟨row', col', hrow', hcol', hv⟩ := hd.put i j _ ⟨hi, hj⟩ <| by
      rw [target, Nat.zero_add]
      exact hsource
    obtain rfl := Option.some.inj (hrow.symm.trans hrow')
    obtain rfl := Option.some.inj (hcol.symm.trans hcol')
    exact ⟨_, h.get_of_holds hp hv, hplace i j ▸ hvalue⟩
  · refine hput.kept place fun col row hin => ?_
    rw [hplace]
    exact hout row col hin.2 hin.1

namespace Consistent

/-- A requested selection is copied completely; where one half is empty, all indices stand for
it. -/
theorem extracted_of_requested (h : table.Consistent heap) {key : String} {selection : Selection}
    {order : Order} {requested status : Status}
    (hrequested : table.requestedSelection key = .ok (selection, requested))
    (hok : table.extractSelection heap type key order lead out = .ok (later, status)) :
    table.Extracted heap type (selection.rows.orAll table.rows) (selection.cols.orAll table.cols)
      order lead out later ∧ status = requested := by
  rw [extractSelection, hrequested] at hok
  obtain ⟨u, hcomplete, hok⟩ := bind_eq_ok_iff.1 hok
  rw [ok_bind] at hok
  obtain ⟨rows, hrows, hok⟩ := bind_eq_ok_iff.1 hok
  obtain ⟨cols, hcols, hok⟩ := bind_eq_ok_iff.1 hok
  have hp : table.pending = none := checkComplete_eq_ok.1 hcomplete
  rw [← toList_filled (fun _ => allRows_eq_ok_iff.1) hrows,
    ← toList_filled (fun _ => allCols_eq_ok_iff.1) hcols]
  rw [← rows.length_toList, ← cols.length_toList] at hok
  obtain ⟨v, hlead, hok⟩ := bind_eq_ok_iff.1 hok
  obtain ⟨w, hneeded, hok⟩ := bind_eq_ok_iff.1 hok
  rw [require_eq_ok] at hlead hneeded
  cases order with
  | columnMajor =>
    obtain ⟨copied, hcopied, hok⟩ := bind_eq_ok_iff.1 hok
    cases hok
    have hc := h.copies_copySelected hlead hcopied
    rw [Nat.zero_mul] at hc
    exact ⟨Copies.extracted h hp hneeded hc, rfl⟩
  | rowMajor =>
    obtain ⟨dense, hdense, hok⟩ := bind_eq_ok_iff.1 hok
    cases hok
    have hd := h.copies_copySelected (Nat.le_refl rows.toList.length) hdense
    rw [Nat.zero_mul] at hd
    exact ⟨Copies.extracted_transpose h hp hlead hneeded hd, rfl⟩

theorem extracted_of_ok (h : table.Consistent heap) {key : String} {selection : Selection}
    {order : Order} {status : Status} (hkey : table.selections.find? key = some selection)
    (hok : table.extractSelection heap type key order lead out = .ok (later, status)) :
    table.Extracted heap type (selection.rows.orAll table.rows) (selection.cols.orAll table.cols)
      order lead out later := by
  have hsome : ¬ table.selections.isEmpty = true := by
    intro hempty
    rw [Keyed.isEmpty, List.isEmpty_iff] at hempty
    rw [Keyed.find?, hempty] at hkey
    cases hkey
  have hrequested : table.requestedSelection key = .ok (selection, .success) := by
    rw [requestedSelection, if_neg hsome, hkey]
  exact (h.extracted_of_requested hrequested hok).1

end Consistent

end Table

end TypedTable
