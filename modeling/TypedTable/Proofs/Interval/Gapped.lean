import TypedTable.Proofs.Interval.Members

/-!
# The order of the intervals of index sets

The intervals of a set stand in increasing order, and between two of them an index is missing.
Adding an interval and taking one away keep this order, so a set lists its indices from the least to
the greatest.
-/

set_option autoImplicit false

namespace TypedTable

theorem Interval.pairwise_toList (range : Interval) : range.toList.Pairwise (· < ·) :=
  List.pairwise_lt_range'

namespace IndexSet

/-- The intervals are in increasing order, and an index is missing between two of them. -/
def Gapped (set : IndexSet) : Prop :=
  set.intervals.Pairwise fun a b => a.upper + 1 < b.lower

variable {set : IndexSet} {range : Interval}

theorem gapped_empty : empty.Gapped := List.Pairwise.nil

theorem lt_lower_insertInto {bound : Nat} {intervals : List Interval} (hr : bound < range.lower)
    (hl : ∀ piece ∈ intervals, bound < piece.lower) :
    ∀ piece ∈ insertInto range intervals, bound < piece.lower := by
  induction intervals generalizing range with
  | nil =>
    intro piece hm
    obtain rfl := List.mem_singleton.1 hm
    exact hr
  | cons head rest ih =>
    have hhead := hl head (by simp)
    have hrest : ∀ piece ∈ rest, bound < piece.lower := fun piece hm => hl piece (by simp [hm])
    unfold insertInto
    split
    next =>
      intro piece hm
      rcases List.mem_cons.1 hm with rfl | hm
      · exact hhead
      · exact ih hr hrest piece hm
    next =>
      split
      next =>
        intro piece hm
        rcases List.mem_cons.1 hm with rfl | hm
        · exact hr
        · exact hl piece hm
      next => exact ih (Nat.lt_min.2 ⟨hr, hhead⟩) hrest

theorem pairwise_insertInto {intervals : List Interval}
    (h : intervals.Pairwise fun a b => a.upper + 1 < b.lower) :
    (insertInto range intervals).Pairwise fun a b => a.upper + 1 < b.lower := by
  induction intervals generalizing range with
  | nil => exact List.pairwise_singleton _ _
  | cons head rest ih =>
    obtain ⟨hfirst, hrest⟩ := List.pairwise_cons.1 h
    unfold insertInto
    split
    next hbefore => exact List.pairwise_cons.2 ⟨lt_lower_insertInto hbefore hfirst, ih hrest⟩
    next =>
      split
      next hbehind =>
        refine List.pairwise_cons.2 ⟨fun piece hm => ?_, h⟩
        rcases List.mem_cons.1 hm with rfl | hm
        · exact hbehind
        · have := hfirst piece hm
          have := head.lower_le_upper
          omega
      next => exact ih hrest

theorem Gapped.insert (h : set.Gapped) (range : Interval) : (set.insert range).Gapped :=
  pairwise_insertInto h

/-- What is left of a piece lies within it, the lower part before the upper one. -/
theorem bounds_of_mem_below {piece part : Interval} (hm : part ∈ below range piece) :
    part.lower = piece.lower ∧ part.upper ≤ piece.upper ∧ part.upper < range.lower := by
  unfold below at hm
  split at hm
  next =>
    obtain rfl := List.mem_singleton.1 hm
    dsimp only
    omega
  next => cases hm

theorem bounds_of_mem_above {piece part : Interval} (hm : part ∈ above range piece) :
    piece.lower ≤ part.lower ∧ part.upper = piece.upper ∧ range.upper < part.lower := by
  unfold above at hm
  split at hm
  next =>
    obtain rfl := List.mem_singleton.1 hm
    dsimp only
    omega
  next => cases hm

theorem within_of_mem_parts {piece part : Interval}
    (hm : part ∈ below range piece ++ above range piece) :
    piece.lower ≤ part.lower ∧ part.upper ≤ piece.upper := by
  rcases List.mem_append.1 hm with hm | hm
  · obtain ⟨hlower, hupper, -⟩ := bounds_of_mem_below hm
    exact ⟨Nat.le_of_eq hlower.symm, hupper⟩
  · obtain ⟨hlower, hupper, -⟩ := bounds_of_mem_above hm
    exact ⟨hlower, Nat.le_of_eq hupper⟩

theorem pairwise_parts (range piece : Interval) :
    (below range piece ++ above range piece).Pairwise fun a b => a.upper + 1 < b.lower := by
  have hbelow : (below range piece).Pairwise fun a b => a.upper + 1 < b.lower := by
    unfold below
    split
    next => exact List.pairwise_singleton _ _
    next => exact List.Pairwise.nil
  have habove : (above range piece).Pairwise fun a b => a.upper + 1 < b.lower := by
    unfold above
    split
    next => exact List.pairwise_singleton _ _
    next => exact List.Pairwise.nil
  refine List.pairwise_append.2 ⟨hbelow, habove, fun a ha b hb => ?_⟩
  have := (bounds_of_mem_below ha).2.2
  have := (bounds_of_mem_above hb).2.2
  have := range.lower_le_upper
  omega

theorem Gapped.erase (h : set.Gapped) (range : Interval) : (set.erase range).Gapped := by
  refine List.pairwise_flatMap.2 ⟨fun piece _ => pairwise_parts range piece, ?_⟩
  refine h.imp fun {a b} hgap part hpart other hother => ?_
  have := (within_of_mem_parts hpart).2
  have := (within_of_mem_parts hother).1
  omega

theorem Gapped.foldl_erase {ranges : List Interval} (h : set.Gapped) :
    (ranges.foldl IndexSet.erase set).Gapped := by
  induction ranges generalizing set with
  | nil => exact h
  | cons range later ih => exact ih (h.erase range)

/-- The indices of a set are listed in increasing order. -/
theorem Gapped.pairwise_toList (h : set.Gapped) : set.toList.Pairwise (· < ·) := by
  refine List.pairwise_flatMap.2 ⟨fun range _ => range.pairwise_toList, ?_⟩
  refine h.imp fun {a b} hgap index hindex other hother => ?_
  have := (Interval.mem_toList.1 hindex).2
  have := (Interval.mem_toList.1 hother).1
  omega

structure Within (set : IndexSet) (bound : Nat) : Prop where
  gapped : set.Gapped
  lt : ∀ index ∈ set, index < bound

variable {bound : Nat}

theorem mem_orAll {index : Nat} :
    index ∈ set.orAll bound ↔ if set.isEmpty then index < bound else index ∈ set := by
  rw [orAll]
  split
  · exact List.mem_range
  · exact mem_toList

theorem exists_mem_of_not_isEmpty (h : ¬ set.isEmpty = true) : ∃ index, index ∈ set := by
  obtain ⟨intervals⟩ := set
  cases intervals with
  | nil => exact absurd rfl h
  | cons first rest => exact ⟨first.lower, first, by simp, Nat.le_refl _, first.lower_le_upper⟩

theorem length_orAll_pos (set : IndexSet) (hb : 0 < bound) : 0 < (set.orAll bound).length := by
  by_cases hempty : set.isEmpty = true
  · exact List.length_pos_of_mem (a := 0) (mem_orAll.2 (by rwa [if_pos hempty]))
  · obtain ⟨index, hm⟩ := exists_mem_of_not_isEmpty hempty
    exact List.length_pos_of_mem (a := index) (mem_orAll.2 (by rwa [if_neg hempty]))

theorem within_empty (bound : Nat) : empty.Within bound where
  gapped := gapped_empty
  lt := by
    rintro index ⟨range, hm, -⟩
    cases hm

namespace Within

theorem mono {later : Nat} (h : set.Within bound) (hl : bound ≤ later) : set.Within later where
  gapped := h.gapped
  lt index hm := Nat.lt_of_lt_of_le (h.lt index hm) hl

theorem insert (h : set.Within bound) (hr : range.upper < bound) : (set.insert range).Within bound where
  gapped := h.gapped.insert range
  lt := by
    intro index hm
    rcases mem_insert.1 hm with hm | hm
    · exact h.lt index hm
    · exact Nat.lt_of_le_of_lt hm.2 hr

theorem erase (h : set.Within bound) (range : Interval) : (set.erase range).Within bound where
  gapped := h.gapped.erase range
  lt index hm := h.lt index (mem_erase.1 hm).1

theorem foldl_erase (h : set.Within bound) (ranges : List Interval) :
    (ranges.foldl IndexSet.erase set).Within bound where
  gapped := h.gapped.foldl_erase
  lt index hm := h.lt index (mem_foldl_erase.1 hm).1

theorem upper_lt (h : set.Within bound) (hm : range ∈ set.intervals) : range.upper < bound :=
  h.lt range.upper ⟨range, hm, range.lower_le_upper, Nat.le_refl _⟩

theorem pairwise_orAll (h : set.Within bound) : (set.orAll bound).Pairwise (· < ·) := by
  rw [orAll]
  split
  · exact List.pairwise_lt_range
  · exact h.gapped.pairwise_toList

theorem mem_orAll_iff (h : set.Within bound) {index : Nat} :
    index ∈ set.orAll bound ↔ index < bound ∧ (set.isEmpty = true ∨ index ∈ set) := by
  rw [mem_orAll]
  split
  next hempty => simp [hempty]
  next hsome => exact ⟨fun hm => ⟨h.lt index hm, .inr hm⟩, fun hm => hm.2.resolve_left hsome⟩

end Within

end IndexSet

end TypedTable
