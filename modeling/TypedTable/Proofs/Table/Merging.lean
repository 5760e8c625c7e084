import TypedTable.Proofs.Table.Growing

/-!
# Merging keeps tables consistent

A merged table brings its chains along under new numbers. They find room behind those of the table
that takes them over, so a merge of consistent tables is either refused with both as they were or
leads to a consistent table.
-/

set_option autoImplicit false

namespace TypedTable.Table

def merged (table other : Table) : Table :=
  { table with
    rows := other.rows
    cols := table.cols + other.cols
    arena := table.arena.append other.arena table.cols
    chains := ⟨table.chains.entries ++ other.chains.entries.map fun entry =>
      (entry.1.shift table.cols, entry.2 + table.arena.nodes.size)⟩
    labels := Labels.enterUnused other.labels.names table.cols
      (table.labels.widen other.cols) }

namespace Consistent

variable {heap : Heap} {table other : Table} {entry : Interval × Nat}

/-- The chains of a merged table are those of its two parts. -/
theorem entry_merged (h : table.Consistent heap) (ho : other.Consistent heap)
    (hm : entry ∈ (merged table other).chains.entries) :
    (entry ∈ table.chains.entries ∧
      (merged table other).arena.chain entry.2 = table.arena.chain entry.2) ∨
    ∃ moved ∈ other.chains.entries, entry.1 = moved.1.shift table.cols ∧
      (merged table other).arena.chain entry.2 =
        (other.arena.chain moved.2).map
          (Placement.renumber table.arena.blocks.size table.cols) := by
  obtain ⟨-, hold, hmoved⟩ := Arena.Apart.append table.arena other.arena table.cols h.apart ho.apart
  rcases List.mem_append.1 hm with hm | hm
  · exact .inl ⟨hm, hold entry.2 (mem_heads hm)⟩
  · obtain ⟨moved, hother, rfl⟩ := List.mem_map.1 hm
    exact .inr ⟨moved, hother, rfl, hmoved moved.2 (mem_heads hother)⟩

/-- The blocks of the two tables stay apart, and within each table one block keeps one offset. -/
theorem shared_merged (h : table.Consistent heap) (ho : other.Consistent heap) :
    ∀ a ∈ (merged table other).chains.entries, ∀ b ∈ (merged table other).chains.entries,
      ∀ placement ∈ (merged table other).arena.chain a.2,
      ∀ other' ∈ (merged table other).arena.chain b.2,
        placement.block = other'.block → placement.offset = other'.offset := by
  intro a ha b hb placement hpa other' hpb hsame
  rcases h.entry_merged ho ha with ⟨ha, hchain⟩ | ⟨a', ha, -, hchain⟩
  · rw [hchain] at hpa
    have hlt := h.block_lt ha hpa
    rcases h.entry_merged ho hb with ⟨hb, hchain⟩ | ⟨b', hb, -, hchain⟩
    · rw [hchain] at hpb
      exact h.shared a ha b hb placement hpa other' hpb hsame
    · rw [hchain] at hpb
      obtain ⟨old, -, rfl⟩ := List.mem_map.1 hpb
      simp only [Placement.renumber] at hsame
      omega
  · rw [hchain] at hpa
    obtain ⟨old, hold, rfl⟩ := List.mem_map.1 hpa
    rcases h.entry_merged ho hb with ⟨hb, hchain⟩ | ⟨b', hb, -, hchain⟩
    · rw [hchain] at hpb
      have hlt := h.block_lt hb hpb
      simp only [Placement.renumber] at hsame
      omega
    · rw [hchain] at hpb
      obtain ⟨old', hold', rfl⟩ := List.mem_map.1 hpb
      have hblock := Nat.add_right_cancel hsame
      exact congrArg (· + table.cols) (ho.shared a' ha b' hb old hold old' hold' hblock)

theorem hasRows_merged (h : table.Consistent heap) (ho : other.Consistent heap)
    (hp : table.pending = none) (hpo : other.pending = none)
    (hr : 0 < table.cols → table.rows = other.rows) : (merged table other).HasRows := by
  have hpending : (merged table other).pending = none := hp
  rw [HasRows, hpending]
  intro entry hm
  rcases h.entry_merged ho hm with ⟨hm, hchain⟩ | ⟨moved, hm, -, hchain⟩
  · have := h.lt_cols hm
    have hextends := table.arena.extends_append other.arena table.cols
    rw [hchain]
    refine ((h.supports entry hm).height_extend hextends).trans ?_
    rw [h.height_eq hp hm, hr (by omega)]
    rfl
  · rw [hchain]
    exact (table.arena.height_append_right other.arena table.cols _).trans (ho.height_eq hpo hm)

/-- Two complete tables of the same height, of which the first may be empty, are merged to a
consistent table. -/
theorem merged_consistent (h : table.Consistent heap) (ho : other.Consistent heap)
    (hp : table.pending = none) (hpo : other.pending = none) (hc : 0 < other.cols)
    (hr : 0 < table.cols → table.rows = other.rows) :
    (merged table other).Consistent heap := by
  constructor
  case tiles =>
    have htiles := ho.tiles.map_shift (· + table.arena.nodes.size) table.cols
    rw [Nat.zero_add, Nat.add_comm other.cols] at htiles
    exact h.tiles.append htiles
  case apart =>
    obtain ⟨hapart, -, -⟩ := Arena.Apart.append table.arena other.arena table.cols h.apart ho.apart
    have hheads : (merged table other).chains.entries.map (·.2) =
        table.chains.entries.map (·.2) ++
          (other.chains.entries.map (·.2)).map (· + table.arena.nodes.size) := by
      simp [merged]
    exact hheads ▸ hapart
  case supports =>
    intro entry hm
    rcases h.entry_merged ho hm with ⟨hm, hchain⟩ | ⟨moved, hm, hspan, hchain⟩
    · rw [hchain]
      exact (h.supports entry hm).extend (table.arena.extends_append other.arena table.cols)
    · rw [hchain, hspan]
      exact (ho.supports moved hm).append_right table.arena other.arena table.cols
  case shared => exact h.shared_merged ho
  case hasRows => exact h.hasRows_merged ho hp hpo hr
  case filled =>
    intro block hm
    rcases Array.mem_append.1 hm with hm | hm
    · exact h.filled block hm
    · exact ho.filled block hm
  case labels => exact h.labels.join ho.labels
  case noRows =>
    intro hzero
    have : table.cols + other.cols = 0 := hzero
    omega

theorem insertChains_eq_ok {first bound : Nat} {moved : List (Interval × Nat)}
    (hs : table.chains.Sorted) (ht : Tiles first moved bound)
    (hl : ∀ entry ∈ table.chains.entries, entry.1.upper < first + table.cols) :
    table.insertChains moved = .ok (table.withChains
      ⟨table.chains.entries ++ moved.map fun entry =>
        (entry.1.shift table.cols, entry.2 + table.arena.nodes.size)⟩) := by
  induction moved generalizing table first with
  | nil => simp [insertChains, withChains]
  | cons entry later ih =>
    have hbehind : ∀ old ∈ table.chains.entries,
        old.1.upper < (entry.1.shift table.cols).lower := by
      intro old hm
      have hlower : (entry.1.shift table.cols).lower = first + table.cols :=
        congrArg (· + table.cols) ht.1
      exact hlower ▸ hl old hm
    rw [insertChains, RangeMap.insert_last hs _ _ hbehind]
    refine (@ih (table.withChains _) _ (hs.append _ _ hbehind) ht.2 fun old hm => ?_).trans ?_
    · have hupper : (entry.1.shift table.cols).upper = entry.1.upper + table.cols := rfl
      rcases List.mem_append.1 hm with hm | hm
      · have := hbehind old hm
        have := (entry.1.shift table.cols).lower_le_upper
        dsimp only [withChains]
        omega
      · rw [List.mem_singleton.1 hm]
        dsimp only [withChains]
        omega
    · simp [withChains]

/-- Complete tables are merged unless their heights differ; an empty one has nothing to move. -/
theorem merge_of_complete (h : table.Consistent heap) (ho : other.Consistent heap)
    (hp : table.pending = none) (hpo : other.pending = none) :
    table.merge other =
      if other.cols = 0 then .ok (table, other)
      else if 0 < table.cols → table.rows = other.rows then .ok (merged table other, empty)
      else .error ⟨.dimensionMismatch table.rows other.rows, (table, other)⟩ := by
  have hcheck : table.checkComplete = .ok () := checkComplete_eq_ok.2 hp
  have hcheck' : other.checkComplete = .ok () := checkComplete_eq_ok.2 hpo
  have hempty (table : Table) : (¬ table.isEmpty = true) ↔ 0 < table.cols := by
    simp [isEmpty, Nat.pos_iff_ne_zero]
  rw [merge, hcheck, hcheck']
  by_cases hc : 0 < other.cols
  · rw [if_neg (Nat.ne_of_gt hc)]
    by_cases hr : 0 < table.cols → table.rows = other.rows
    · have hinsert := insertChains_eq_ok h.sorted ho.tiles fun entry hm => by
        rw [Nat.zero_add]
        exact h.lt_cols hm
      simp only [refuse_ok, ok_bind, if_neg ((hempty other).2 hc), require, hempty, if_pos hr,
        hinsert]
      rfl
    · simp only [refuse_ok, refuse_error, ok_bind, if_neg ((hempty other).2 hc), require, hempty,
        if_neg hr, error_bind]
  · rw [if_pos (Nat.eq_zero_of_not_pos hc)]
    simp only [refuse_ok, ok_bind, if_pos (not_not.1 (mt (hempty other).1 hc))]
    rfl

/-- A merge is refused and changes nothing, has nothing to move, or leads to the merged table. -/
theorem merge_cases (h : table.Consistent heap) (ho : other.Consistent heap) :
    (∃ fault, fault.kind ≠ .internal ∧ table.merge other = .error ⟨fault, (table, other)⟩) ∨
    (table.pending = none ∧ other.pending = none ∧
      ((other.cols = 0 ∧ table.merge other = .ok (table, other)) ∨
        (0 < other.cols ∧ (0 < table.cols → table.rows = other.rows) ∧
          table.merge other = .ok (merged table other, empty)))) := by
  cases hp : table.pending with
  | some pending =>
    refine .inl ⟨.missingBlock pending.nextCol, ne_of_beq_false rfl, ?_⟩
    rw [merge, checkComplete, hp]
    rfl
  | none =>
    cases hpo : other.pending with
    | some pending =>
      refine .inl ⟨.missingBlock pending.nextCol, ne_of_beq_false rfl, ?_⟩
      rw [merge, (checkComplete_eq_ok (u := ())).2 hp, checkComplete, hpo]
      rfl
    | none =>
      rw [h.merge_of_complete ho hp hpo]
      split
      next hc => exact .inr ⟨rfl, rfl, .inl ⟨hc, rfl⟩⟩
      next hc =>
        split
        next hr => exact .inr ⟨rfl, rfl, .inr ⟨Nat.pos_of_ne_zero hc, hr, rfl⟩⟩
        next => exact .inl ⟨_, ne_of_beq_false rfl, rfl⟩

end Consistent

end TypedTable.Table
