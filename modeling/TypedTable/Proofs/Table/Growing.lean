import Mathlib.Data.List.Nodup
import TypedTable.Proofs.Table.Consistent
import TypedTable.Table.Growth

/-!
# Growth keeps tables consistent

Each way of growing a consistent table is described by the table it leads to, which is consistent
again. A block of columns starts one more chain; a block of rows makes the chains that it covers
longer.
-/

set_option autoImplicit false

namespace TypedTable

theorem Interval.ofSize_eq_ok {start size : Nat} {span : Interval}
    (h : Interval.ofSize start size = .ok span) :
    0 < size ∧ span.lower = start ∧ span.upper + 1 = start + size := by
  unfold Interval.ofSize at h
  split at h
  · cases h
  · split at h
    · cases h
    · cases h
      dsimp only
      omega

namespace Table

def lackedRows (table : Table) : Nat := table.pending.elim 0 PendingRows.rows

theorem consistent_empty (heap : Heap) : Table.empty.Consistent heap where
  tiles := rfl
  apart := ⟨by simp [empty], by simp [empty], by simp [empty]⟩
  supports := by simp [empty]
  shared := by simp [empty]
  hasRows := by simp [empty, HasRows]
  filled := by simp [empty]
  labels := Labels.matched_empty
  noRows _ := rfl

variable {heap : Heap} {table : Table}

theorem checkComplete_eq_ok {u : Unit} :
    table.checkComplete = .ok u ↔ table.pending = none := by
  unfold checkComplete
  split <;> simp [*]

/-- What begins with a check for pending rows succeeds only if there are none. -/
theorem complete_of_ok {σ α : Type} {left : σ} {f : Unit → Except (Refused σ) α} {result : α}
    (hok : (refuse left table.checkComplete >>= f) = .ok result) : table.pending = none := by
  obtain ⟨u, hcomplete, -⟩ := refuse_bind_eq_ok_iff.1 hok
  exact checkComplete_eq_ok.1 hcomplete

namespace Consistent

variable {entry : Interval × Nat}

theorem sorted (h : table.Consistent heap) : table.chains.Sorted := h.tiles.pairwise

theorem mem_heads (hm : entry ∈ table.chains.entries) :
    entry.2 ∈ table.chains.entries.map (·.2) :=
  List.mem_map_of_mem hm

theorem lt_cols (h : table.Consistent heap) (hm : entry ∈ table.chains.entries) :
    entry.1.upper < table.cols :=
  (h.tiles.bounds hm).2

theorem grow {later : Heap} (h : table.Consistent heap) (hg : heap.GrowsTo later) :
    table.Consistent later :=
  { h with filled := fun block hm => (h.filled block hm).grow hg }

theorem block_lt (h : table.Consistent heap) (hm : entry ∈ table.chains.entries)
    {placement : Placement} (hp : placement ∈ table.arena.chain entry.2) :
    placement.block < table.arena.blocks.size :=
  (h.supports entry hm).block_lt hp

theorem mem_range_iff (h : table.Consistent heap) {span : Interval} :
    entry ∈ table.chains.range span ↔
      entry ∈ table.chains.entries ∧ entry.1.meets span = true :=
  RangeMap.mem_range_iff h.sorted

theorem shared_or_new (h : table.Consistent heap) {offset : Nat} {placement other : Placement}
    (hp : (∃ entry ∈ table.chains.entries, placement ∈ table.arena.chain entry.2) ∨
      placement = ⟨table.arena.blocks.size, offset⟩)
    (ho : (∃ entry ∈ table.chains.entries, other ∈ table.arena.chain entry.2) ∨
      other = ⟨table.arena.blocks.size, offset⟩)
    (hsame : placement.block = other.block) : placement.offset = other.offset := by
  rcases hp with ⟨a, ha, hp⟩ | rfl
  · rcases ho with ⟨b, hb, ho⟩ | rfl
    · exact h.shared a ha b hb placement hp other ho hsame
    · exact absurd hsame (Nat.ne_of_lt (h.block_lt ha hp))
  · rcases ho with ⟨b, hb, ho⟩ | rfl
    · exact absurd hsame.symm (Nat.ne_of_lt (h.block_lt hb ho))
    · rfl

/-- New columns have a chain of their own, the others keep theirs. -/
theorem entry_addColumns (h : table.Consistent heap) (span : Interval)
    (hm : entry ∈ table.chains.entries ++ [(span, table.arena.nodes.size)]) :
    (entry ∈ table.chains.entries ∧
      (table.arena.addHead ⟨table.arena.blocks.size, table.cols⟩).chain entry.2 =
        table.arena.chain entry.2) ∨
    (entry = (span, table.arena.nodes.size) ∧
      (table.arena.addHead ⟨table.arena.blocks.size, table.cols⟩).chain entry.2 =
        [⟨table.arena.blocks.size, table.cols⟩]) := by
  obtain ⟨-, hnew, hold⟩ := h.apart.addHead ⟨table.arena.blocks.size, table.cols⟩
  rcases List.mem_append.1 hm with hm | hm
  · exact .inl ⟨hm, hold entry.2 (mem_heads hm)⟩
  · obtain rfl := List.mem_singleton.1 hm
    exact .inr ⟨rfl, hnew⟩

/-- With a block of new columns on the right a table is consistent. -/
theorem addColumns (h : table.Consistent heap) {block : Block} {span : Interval}
    (hp : table.pending = none) (hr : 0 < table.cols → block.rows = table.rows)
    (hb : block.Filled heap) (hl : span.lower = table.cols)
    (hu : span.upper + 1 = table.cols + block.cols) :
    (table.addColumns block
      ⟨table.chains.entries ++ [(span, table.arena.nodes.size)]⟩).Consistent heap := by
  have hextends : table.arena.Extends
      ((table.arena.addHead ⟨table.arena.blocks.size, table.cols⟩).addBlock block) :=
    table.arena.extends_addBlock block
  have hspan : span.size ≤ block.cols := by
    have := span.lower_le_upper
    simp only [Interval.size]
    omega
  have hsupports :=
    (table.arena.addHead ⟨table.arena.blocks.size, table.cols⟩).supports_addBlock block hspan
  have hheight :=
    (table.arena.addHead ⟨table.arena.blocks.size, table.cols⟩).height_new block span.lower
  rw [hl] at hsupports hheight
  constructor
  case tiles => exact h.tiles.append ⟨hl, hu⟩
  case apart =>
    obtain ⟨hapart, -, -⟩ := h.apart.addHead ⟨table.arena.blocks.size, table.cols⟩
    have hheads : (table.chains.entries ++ [(span, table.arena.nodes.size)]).map (·.2) =
        table.chains.entries.map (·.2) ++ [table.arena.nodes.size] := by simp
    exact hheads ▸ hapart.of_nodes rfl
  case supports =>
    intro entry hm
    simp only [Table.addColumns, Arena.chain_addBlock]
    rcases h.entry_addColumns span hm with ⟨hm, hchain⟩ | ⟨rfl, hchain⟩
    · rw [hchain]
      exact (h.supports entry hm).extend hextends
    · rw [hchain]
      exact hsupports
  -- the new block is in no old chain, since its number is the next one
  case shared =>
    have hplaced : ∀ entry ∈ table.chains.entries ++ [(span, table.arena.nodes.size)],
        ∀ placement ∈
          (table.arena.addHead ⟨table.arena.blocks.size, table.cols⟩).chain entry.2,
        (∃ old ∈ table.chains.entries, placement ∈ table.arena.chain old.2) ∨
          placement = ⟨table.arena.blocks.size, table.cols⟩ := by
      intro entry hm placement hp
      rcases h.entry_addColumns span hm with ⟨hm, hchain⟩ | ⟨-, hchain⟩
      · exact .inl ⟨entry, hm, hchain ▸ hp⟩
      · exact .inr (List.mem_singleton.1 (hchain ▸ hp))
    intro a ha b hb placement hpa other hpb hsame
    simp only [Table.addColumns, Arena.chain_addBlock] at hpa hpb
    exact h.shared_or_new (hplaced a ha placement hpa) (hplaced b hb other hpb) hsame
  case hasRows =>
    simp only [HasRows, Table.addColumns, hp, Arena.chain_addBlock]
    intro entry hm
    rcases h.entry_addColumns span hm with ⟨hm, hchain⟩ | ⟨rfl, hchain⟩
    · rw [hchain, (h.supports entry hm).height_extend hextends, h.height_eq hp hm, hr]
      have := h.lt_cols hm
      omega
    · rw [hchain]
      exact hheight
  case filled =>
    intro old hm
    rcases Array.mem_push.1 hm with hm | rfl
    · exact h.filled old hm
    · exact hb
  case labels => exact h.labels.widen block.cols
  case noRows =>
    intro hzero
    have hpos := hb.cols_pos
    simp only [Table.addColumns, Block.cols] at hzero
    omega

section Rows

variable {block : Block} {span : Interval} {tails : List Nat}

theorem eq_of_head (h : table.Consistent heap) {a b : Interval × Nat}
    (ha : a ∈ table.chains.entries) (hb : b ∈ table.chains.entries) (he : a.2 = b.2) : a = b :=
  List.inj_on_of_nodup_map h.apart.nodup ha hb he

/-- Just the chains that the block of rows covers have it below them. -/
theorem linked (h : table.Consistent heap) (block : Block)
    (ht : ((table.chains.range span).map (·.2)).map table.arena.tail? = tails.map some) :
    (table.linkRows span block tails).arena.Apart (table.chains.entries.map (·.2)) ∧
    ∀ entry ∈ table.chains.entries, (table.linkRows span block tails).arena.chain entry.2 =
      if entry.1.meets span then
        table.arena.chain entry.2 ++ [⟨table.arena.blocks.size, span.lower⟩]
      else table.arena.chain entry.2 := by
  have htargets : ∀ target ∈ (table.chains.range span).map (·.2),
      target ∈ table.chains.entries.map (·.2) := by
    intro target hm
    obtain ⟨entry, hin, rfl⟩ := List.mem_map.1 hm
    exact mem_heads (h.mem_range_iff.1 hin).1
  have hnodup : ((table.chains.range span).map (·.2)).Nodup := by
    rw [RangeMap.range_eq_filter h.sorted span]
    exact h.apart.nodup.sublist (List.filter_sublist.map _)
  have hapart : (table.arena.addBlock block).Apart (table.chains.entries.map (·.2)) :=
    h.apart.of_nodes rfl
  have htails : ((table.chains.range span).map (·.2)).map (table.arena.addBlock block).tail? =
      tails.map some := by
    rw [← ht]
    apply List.map_congr_left
    intro target _
    rw [Arena.tail?, Arena.tail?,
      Arena.path_eq_of_nodes (show (table.arena.addBlock block).nodes = table.arena.nodes from rfl)]
  obtain ⟨hapart', hchains⟩ := hapart.linkAll ⟨table.arena.blocks.size, span.lower⟩ htargets hnodup
    htails
  refine ⟨hapart', fun entry hm => ?_⟩
  have hmeets : entry.2 ∈ (table.chains.range span).map (·.2) ↔ entry.1.meets span = true := by
    constructor
    · intro hmem
      obtain ⟨other, hin, he⟩ := List.mem_map.1 hmem
      obtain ⟨hother, hmeets⟩ := h.mem_range_iff.1 hin
      exact h.eq_of_head hother hm he ▸ hmeets
    · intro hmeets
      exact List.mem_map_of_mem (h.mem_range_iff.2 ⟨hm, hmeets⟩)
  refine (hchains entry.2 (mem_heads hm)).trans ?_
  simp only [hmeets, Arena.chain_addBlock]

theorem heights (h : table.Consistent heap) (hm : entry ∈ table.chains.entries) :
    (entry.1.lower < table.nextRowColumn →
      table.arena.height (table.arena.chain entry.2) = table.rows) ∧
    (table.nextRowColumn ≤ entry.1.lower →
      table.arena.height (table.arena.chain entry.2) + table.lackedRows = table.rows) := by
  have hrows := h.hasRows
  unfold HasRows at hrows
  unfold nextRowColumn lackedRows
  cases hp : table.pending with
  | none =>
    rw [hp] at hrows
    exact ⟨fun hlt => absurd hlt (Nat.not_lt_zero _), fun _ => hrows entry hm⟩
  | some pending =>
    rw [hp] at hrows
    exact hrows.2.2.2 entry hm

theorem rows_linkRows (span : Interval) (tails : List Nat)
    (hr : ∀ pending, table.pending = some pending → block.rows = pending.rows) :
    (table.linkRows span block tails).rows + table.lackedRows = table.rows + block.rows := by
  unfold Table.linkRows lackedRows
  cases hp : table.pending with
  | none => rfl
  | some pending =>
    rw [hr pending hp]
    rfl

theorem rows_linkRows_word (span : Interval) (tails : List Nat)
    (h : table.rows + block.rows < wordLimit) :
    (table.linkRows span block tails).rows =
      if table.pending.isNone then (table.rows + block.rows) % wordLimit else table.rows := by
  rw [Nat.mod_eq_of_lt h]
  rfl

theorem hasRows_linkRows (h : table.Consistent heap) (hl : span.lower = table.nextRowColumn)
    (hu : span.upper < table.cols)
    (hr : ∀ pending, table.pending = some pending → block.rows = pending.rows)
    (hin : ∀ entry ∈ table.chains.entries, entry.1.meets span = true →
      span.lower ≤ entry.1.lower ∧ entry.1.upper ≤ span.upper)
    (hheight : ∀ entry ∈ table.chains.entries,
      (table.linkRows span block tails).arena.height
          ((table.linkRows span block tails).arena.chain entry.2) =
        table.arena.height (table.arena.chain entry.2) +
          if entry.1.meets span then block.rows else 0) :
    (table.linkRows span block tails).HasRows := by
  have hrows := rows_linkRows span tails hr
  have hspan := span.lower_le_upper
  have hlacked : 0 < table.nextRowColumn → table.lackedRows = block.rows := by
    unfold nextRowColumn lackedRows
    cases hp : table.pending with
    | none => exact fun hlt => absurd hlt (Nat.not_lt_zero _)
    | some pending => exact fun _ => (hr pending hp).symm
  -- chains up to the end of the block have all rows, those behind it lack the rows of the block
  have hdone : ∀ entry ∈ table.chains.entries, entry.1.lower ≤ span.upper →
      (table.linkRows span block tails).arena.height
        ((table.linkRows span block tails).arena.chain entry.2) =
          (table.linkRows span block tails).rows := by
    intro entry hm hle
    obtain ⟨hleft, hright⟩ := h.heights hm
    rw [hheight entry hm]
    by_cases hmeets : entry.1.meets span = true
    · have := (hin entry hm hmeets).1
      have := hright (by omega)
      rw [if_pos hmeets]
      omega
    · rw [if_neg hmeets]
      rw [Interval.meets_iff] at hmeets
      have := entry.1.lower_le_upper
      have := hleft (by omega)
      have := hlacked (by omega)
      omega
  have hlack : ∀ entry ∈ table.chains.entries, span.upper < entry.1.lower →
      (table.linkRows span block tails).arena.height
          ((table.linkRows span block tails).arena.chain entry.2) + block.rows =
        (table.linkRows span block tails).rows := by
    intro entry hm hlt
    have hmeets : ¬ entry.1.meets span = true := by
      rw [Interval.meets_iff]
      omega
    have := (h.heights hm).2 (by omega)
    rw [hheight entry hm, if_neg hmeets]
    omega
  by_cases hlast : span.upper + 1 < table.cols
  · have hpending : (table.linkRows span block tails).pending =
        some ⟨span.upper + 1, block.rows⟩ := if_pos hlast
    obtain ⟨entry, hm, hmem⟩ := h.tiles.exists_mem (Nat.zero_le _) hlast
    have hlower : entry.1.lower = span.upper + 1 := by
      by_contra hne
      have hmeets : entry.1.meets span = true := by
        have := span.lower_le_upper
        rw [Interval.mem_def] at hmem
        rw [Interval.meets_iff]
        omega
      have := (hin entry hm hmeets).2
      have := hmem.2
      omega
    rw [HasRows, hpending]
    exact ⟨Nat.succ_pos _, hlast, ⟨entry, hm, hlower⟩, fun entry hm =>
      ⟨fun hlt => hdone entry hm (Nat.le_of_lt_succ hlt), hlack entry hm⟩⟩
  · have hpending : (table.linkRows span block tails).pending = none := if_neg hlast
    rw [HasRows, hpending]
    intro entry hm
    have := h.lt_cols hm
    have := entry.1.lower_le_upper
    exact hdone entry hm (by omega)

theorem blocks_linkRows (table : Table) (span : Interval) (block : Block) (tails : List Nat) :
    (table.linkRows span block tails).arena.blocks = (table.arena.addBlock block).blocks :=
  Arena.blocks_linkAll _ _ _

theorem extends_linkRows (table : Table) (span : Interval) (block : Block) (tails : List Nat) :
    table.arena.Extends (table.linkRows span block tails).arena := by
  intro index old hold
  rw [blocks_linkRows]
  exact table.arena.extends_addBlock block index old hold

/-- A chain with the block of rows below it is a chain of its columns if they have the block's
type. -/
theorem supports_linkRows (h : table.Consistent heap)
    (hc : span.upper + 1 = span.lower + block.cols)
    (hin : ∀ entry ∈ table.chains.entries, entry.1.meets span = true →
      (span.lower ≤ entry.1.lower ∧ entry.1.upper ≤ span.upper) ∧
      ∀ placement ∈ table.arena.chain entry.2, ∀ old,
        table.arena.blocks[placement.block]? = some old → old.type = block.type)
    (ht : ((table.chains.range span).map (·.2)).map table.arena.tail? = tails.map some)
    (hm : entry ∈ table.chains.entries) :
    (table.linkRows span block tails).arena.Supports entry.1
      ((table.linkRows span block tails).arena.chain entry.2) := by
  obtain ⟨-, hchain⟩ := h.linked block ht
  have hgrown : (table.arena.addBlock block).Extends (table.linkRows span block tails).arena := by
    intro index old hold
    rw [blocks_linkRows]
    exact ⟨old, hold, .refl old⟩
  rw [hchain entry hm]
  split
  next hmeets =>
    obtain ⟨⟨hlower, hupper⟩, htype⟩ := hin entry hm hmeets
    have := span.lower_le_upper
    exact ((h.supports entry hm).append htype hlower (by omega)).extend hgrown
  next => exact (h.supports entry hm).extend (extends_linkRows table span block tails)

theorem height_linkRows (h : table.Consistent heap) (block : Block)
    (ht : ((table.chains.range span).map (·.2)).map table.arena.tail? = tails.map some)
    (hm : entry ∈ table.chains.entries) :
    (table.linkRows span block tails).arena.height
        ((table.linkRows span block tails).arena.chain entry.2) =
      table.arena.height (table.arena.chain entry.2) +
        if entry.1.meets span then block.rows else 0 := by
  obtain ⟨-, hchain⟩ := h.linked block ht
  have hextends := extends_linkRows table span block tails
  rw [hchain entry hm]
  split
  next hmeets =>
    rw [Arena.height_append, (h.supports entry hm).height_extend hextends]
    congr 1
    rw [Arena.height, blocks_linkRows]
    exact table.arena.height_new block span.lower
  next => rw [(h.supports entry hm).height_extend hextends, Nat.add_zero]

/-- With a block of rows below the chains that it covers a table is consistent. -/
theorem linkRows (h : table.Consistent heap) (hl : span.lower = table.nextRowColumn)
    (hu : span.upper < table.cols) (hc : span.upper + 1 = span.lower + block.cols)
    (hb : block.Filled heap)
    (hr : ∀ pending, table.pending = some pending → block.rows = pending.rows)
    (hin : ∀ entry ∈ table.chains.entries, entry.1.meets span = true →
      (span.lower ≤ entry.1.lower ∧ entry.1.upper ≤ span.upper) ∧
      ∀ placement ∈ table.arena.chain entry.2, ∀ old,
        table.arena.blocks[placement.block]? = some old → old.type = block.type)
    (ht : ((table.chains.range span).map (·.2)).map table.arena.tail? = tails.map some) :
    (table.linkRows span block tails).Consistent heap := by
  obtain ⟨hapart, hchain⟩ := h.linked block ht
  constructor
  case tiles => exact h.tiles
  case apart => exact hapart
  case supports =>
    intro entry hm
    exact h.supports_linkRows hc hin ht hm
  case shared =>
    have hplaced : ∀ entry ∈ table.chains.entries,
        ∀ placement ∈ (table.linkRows span block tails).arena.chain entry.2,
          (∃ old ∈ table.chains.entries, placement ∈ table.arena.chain old.2) ∨
            placement = ⟨table.arena.blocks.size, span.lower⟩ := by
      intro entry hm placement hp
      rw [hchain entry hm] at hp
      split at hp
      · rw [List.mem_append, List.mem_singleton] at hp
        exact hp.imp_left fun hp => ⟨entry, hm, hp⟩
      · exact .inl ⟨entry, hm, hp⟩
    intro a ha b hb placement hpa other hpb hsame
    exact h.shared_or_new (hplaced a ha placement hpa) (hplaced b hb other hpb) hsame
  case hasRows =>
    exact h.hasRows_linkRows hl hu hr (fun entry hm hmeets => (hin entry hm hmeets).1)
      fun entry hm => h.height_linkRows block ht hm
  case filled =>
    intro old hm
    rw [blocks_linkRows] at hm
    rcases Array.mem_push.1 hm with hm | rfl
    · exact h.filled old hm
    · exact hb
  case labels => exact h.labels
  case noRows =>
    intro hzero
    have : table.cols = 0 := hzero
    omega

end Rows

theorem placement?_head (h : table.Consistent heap) (hm : entry ∈ table.chains.entries) :
    ∃ placement ∈ table.arena.chain entry.2, table.arena.placement? entry.2 = some placement := by
  have hleads := h.apart.leads (mem_heads hm)
  have hnode := Array.getElem?_eq_getElem (hleads.lt_size hleads.mem_self)
  have hplacement : table.arena.placement? entry.2 = some _ := congrArg (Option.map _) hnode
  exact ⟨_, List.mem_filterMap.2 ⟨entry.2, hleads.mem_self, hplacement⟩, hplacement⟩

/-- The scalar type of a chain is that of all its blocks. -/
theorem chainType_eq (h : table.Consistent heap) (hm : entry ∈ table.chains.entries) :
    ∃ type, table.arena.chainType entry.2 = .ok type ∧
      ∀ placement ∈ table.arena.chain entry.2, ∀ block,
        table.arena.blocks[placement.block]? = some block → block.type = type := by
  obtain ⟨⟨type, hplaced⟩, -⟩ := h.supports entry hm
  obtain ⟨first, hfirst, hplacement⟩ := h.placement?_head hm
  obtain ⟨block, hblock, rfl, -⟩ := hplaced first hfirst
  refine ⟨block.type, ?_, fun placement hp other hother => ?_⟩
  · rw [Arena.chainType, hplacement]
    simp [Arena.block, hblock]
  · obtain ⟨found, hfound, htype, -⟩ := hplaced placement hp
    rw [hfound] at hother
    obtain rfl := Option.some.inj hother
    exact htype

variable {later : Table} {type : ScalarType} {rows cols : Nat} {order : Order}
  {storage : Storage type}

theorem appendColumns_eq_ok (h : table.Consistent heap)
    (hok : table.appendColumns heap rows cols order storage = .ok later) :
    ∃ (dense : Dense type) (span : Interval), table.pending = none ∧
      (0 < table.cols → rows = table.rows) ∧ span.lower = table.cols ∧
      span.upper + 1 = table.cols + cols ∧
      Dense.make heap rows cols order storage = .ok dense ∧
      later = table.addColumns ⟨type, dense⟩
        ⟨table.chains.entries ++ [(span, table.arena.nodes.size)]⟩ := by
  obtain ⟨u, hcomplete, hok⟩ := refuse_bind_eq_ok_iff.1 hok
  obtain ⟨v, hrows, hok⟩ := refuse_bind_eq_ok_iff.1 hok
  obtain ⟨dense, hdense, hok⟩ := refuse_bind_eq_ok_iff.1 hok
  obtain ⟨span, hspan, hok⟩ := refuse_bind_eq_ok_iff.1 hok
  obtain ⟨chains, hchains, hok⟩ := within_bind_eq_ok_iff.1 hok
  obtain ⟨-, hlower, hupper⟩ := Interval.ofSize_eq_ok hspan
  have hlast := RangeMap.insert_last h.sorted span table.arena.nodes.size
    fun entry hm => hlower ▸ h.lt_cols hm
  rw [hlast] at hchains
  cases hchains
  cases hok
  exact ⟨dense, span, checkComplete_eq_ok.1 hcomplete, require_eq_ok.1 hrows, hlower, hupper, hdense,
    rfl⟩

theorem appendColumns (h : table.Consistent heap)
    (hok : table.appendColumns heap rows cols order storage = .ok later) :
    later.Consistent heap := by
  obtain ⟨dense, span, hp, hr, hl, hu, hdense, rfl⟩ := h.appendColumns_eq_ok hok
  obtain ⟨rfl, hfilled, -⟩ := Dense.make_eq_ok hdense
  exact h.addColumns hp hr hfilled hl hu

theorem planLink_eq_ok (h : table.Consistent heap) (hm : entry ∈ table.chains.entries)
    {span : Interval} {tail : Nat} (hok : planLink table.arena type span entry = .ok tail) :
    (span.lower ≤ entry.1.lower ∧ entry.1.upper ≤ span.upper) ∧
    (∀ placement ∈ table.arena.chain entry.2, ∀ block,
      table.arena.blocks[placement.block]? = some block → block.type = type) ∧
    table.arena.tail? entry.2 = some tail := by
  obtain ⟨found, hfound, htypes⟩ := h.chainType_eq hm
  rw [planLink, hfound] at hok
  obtain ⟨u, hinside, hplan⟩ := bind_eq_ok_iff.1 hok
  rw [ok_bind] at hplan
  obtain ⟨v, htype, hlast⟩ := bind_eq_ok_iff.1 hplan
  obtain rfl := require_eq_ok.1 htype
  refine ⟨require_eq_ok.1 hinside, htypes, ?_⟩
  cases htail : table.arena.tail? entry.2 with
  | some last =>
    rw [htail] at hlast
    cases hlast
    rfl
  | none =>
    rw [htail] at hlast
    cases hlast

theorem appendRows_of_no_cols (hc : ¬ 0 < table.cols) :
    table.appendRows heap rows cols order storage =
      table.appendColumns heap rows cols order storage := by
  rw [Table.appendRows, if_pos]
  simp only [isEmpty, beq_iff_eq]
  omega

/-- What new rows do to a consistent table with columns. -/
theorem appendRows_eq_ok (h : table.Consistent heap) (hc : 0 < table.cols)
    (hok : table.appendRows heap rows cols order storage = .ok later) :
    ∃ (dense : Dense type) (span : Interval) (tails : List Nat),
      (∀ pending, table.pending = some pending → rows = pending.rows) ∧
      span.lower = table.nextRowColumn ∧ span.upper + 1 = span.lower + cols ∧
      span.upper < table.cols ∧
      (∀ entry ∈ table.chains.entries, entry.1.meets span = true →
        (span.lower ≤ entry.1.lower ∧ entry.1.upper ≤ span.upper) ∧
        ∀ placement ∈ table.arena.chain entry.2, ∀ block,
          table.arena.blocks[placement.block]? = some block → block.type = type) ∧
      ((table.chains.range span).map (·.2)).map table.arena.tail? = tails.map some ∧
      Dense.make heap rows cols order storage = .ok dense ∧
      later = table.linkRows span ⟨type, dense⟩ tails := by
  rw [appendRows, if_neg (by simp [isEmpty]; omega)] at hok
  obtain ⟨u, hpending, hok⟩ := refuse_bind_eq_ok_iff.1 hok
  obtain ⟨span, hspan, hok⟩ := refuse_bind_eq_ok_iff.1 hok
  obtain ⟨v, hfits, hok⟩ := refuse_bind_eq_ok_iff.1 hok
  obtain ⟨tails, htails, hok⟩ := refuse_bind_eq_ok_iff.1 hok
  obtain ⟨dense, hdense, hok⟩ := refuse_bind_eq_ok_iff.1 hok
  cases hok
  obtain ⟨-, hlower, hupper⟩ := Interval.ofSize_eq_ok hspan
  refine ⟨dense, span, tails, ?_, hlower, hlower ▸ hupper, Interval.fits_iff.1 (require_eq_ok.1 hfits),
    ?_, ?_, hdense, rfl⟩
  · intro pending hp
    rw [checkPendingRows, hp] at hpending
    exact require_eq_ok.1 hpending
  · intro entry hm hmeets
    obtain ⟨tail, htail⟩ := exists_ok_of_mapM htails (h.mem_range_iff.2 ⟨hm, hmeets⟩)
    obtain ⟨hinside, htypes, -⟩ := h.planLink_eq_ok hm htail
    exact ⟨hinside, htypes⟩
  · rw [List.map_map]
    apply map_eq_of_mapM htails
    intro entry hin tail htail
    obtain ⟨-, -, hlast⟩ := h.planLink_eq_ok (h.mem_range_iff.1 hin).1 htail
    exact hlast

theorem appendRows (h : table.Consistent heap)
    (hok : table.appendRows heap rows cols order storage = .ok later) :
    later.Consistent heap := by
  by_cases hc : 0 < table.cols
  · obtain ⟨dense, span, tails, hr, hl, hw, hu, hin, ht, hdense, rfl⟩ := h.appendRows_eq_ok hc hok
    obtain ⟨rfl, hfilled, -⟩ := Dense.make_eq_ok hdense
    exact h.linkRows hl hu hw hfilled hr hin ht
  · rw [appendRows_of_no_cols hc] at hok
    exact h.appendColumns hok

end Consistent

section Refused

variable {type : ScalarType} {rows cols : Nat} {order : Order} {storage : Storage type}

/-- The column map is the only part that has been looked at to be changed. -/
theorem leaves_appendColumns :
    Leaves table (table.appendColumns heap rows cols order storage) :=
  .check fun _ _ => .check fun _ _ => .check fun _ _ => .check fun _ _ =>
    (RangeMap.leaves_insert.within table.withChains).bind fun _ _ => .ok _

/-- Every chain is looked at before the first one is made longer. -/
theorem leaves_appendRows :
    Leaves table (table.appendRows heap rows cols order storage) := by
  unfold appendRows
  split
  · exact leaves_appendColumns
  · exact .check fun _ _ => .check fun _ _ => .check fun _ _ => .check fun _ _ =>
      .check fun _ _ => .ok _

end Refused

end Table

end TypedTable
