import TypedTable.Interval.IndexSet

/-!
# Members of index sets

Adding an interval adds its indices and no others, taking one away takes away just these, and a set
is empty when no index is in it. Neither depends on how the intervals of the set are kept.
-/

set_option autoImplicit false

namespace TypedTable

theorem Interval.mem_point {index other : Nat} : other ∈ Interval.point index ↔ other = index := by
  simp only [mem_def, point]
  omega

theorem Interval.mem_hull_iff {a b : Interval} (hab : a.lower ≤ b.upper + 1)
    (hba : b.lower ≤ a.upper + 1) {index : Nat} :
    index ∈ a.hull b ↔ index ∈ a ∨ index ∈ b := by
  have := a.lower_le_upper
  have := b.lower_le_upper
  simp only [mem_def, hull]
  omega

/-- The indices of an interval, counted from its lower one. -/
theorem Interval.lower_add_mem {range : Interval} {place : Nat} :
    range.lower + place ∈ range ↔ place < range.size := by
  have := range.lower_le_upper
  simp only [mem_def, size]
  omega

theorem Interval.getElem?_toList {range : Interval} {place index : Nat} :
    range.toList[place]? = some index ↔ place < range.size ∧ index = range.lower + place := by
  rw [toList, List.getElem?_eq_some_iff]
  simp [eq_comm]

@[simp] theorem Interval.length_toList (range : Interval) : range.toList.length = range.size :=
  List.length_range'

namespace IndexSet

theorem mem_def {set : IndexSet} {index : Nat} :
    index ∈ set ↔ ∃ range ∈ set.intervals, index ∈ range := Iff.rfl

theorem mem_insertInto {range : Interval} {intervals : List Interval} {index : Nat} :
    (∃ piece ∈ insertInto range intervals, index ∈ piece) ↔
      (∃ piece ∈ intervals, index ∈ piece) ∨ index ∈ range := by
  induction intervals generalizing range with
  | nil => simp [insertInto]
  | cons head rest ih =>
    unfold insertInto
    split
    next => simp only [List.mem_cons, exists_eq_or_imp, ih, or_assoc]
    next habove =>
      split
      next => simp only [List.mem_cons, exists_eq_or_imp, or_comm]
      next hbelow =>
        rw [ih, Interval.mem_hull_iff (by omega) (by omega)]
        simp only [List.mem_cons, exists_eq_or_imp, or_assoc, or_comm, or_left_comm]

theorem mem_insert {set : IndexSet} {range : Interval} {index : Nat} :
    index ∈ set.insert range ↔ index ∈ set ∨ index ∈ range :=
  mem_insertInto

theorem mem_below {range piece : Interval} {index : Nat} :
    (∃ part ∈ below range piece, index ∈ part) ↔ index ∈ piece ∧ index < range.lower := by
  unfold below
  split
  next =>
    simp only [List.mem_singleton, exists_eq_left, Interval.mem_def]
    omega
  next =>
    simp only [List.not_mem_nil, false_and, exists_false, Interval.mem_def, false_iff]
    omega

theorem mem_above {range piece : Interval} {index : Nat} :
    (∃ part ∈ above range piece, index ∈ part) ↔ index ∈ piece ∧ range.upper < index := by
  unfold above
  split
  next =>
    simp only [List.mem_singleton, exists_eq_left, Interval.mem_def]
    omega
  next =>
    simp only [List.not_mem_nil, false_and, exists_false, Interval.mem_def, false_iff]
    omega

theorem mem_erase {set : IndexSet} {range : Interval} {index : Nat} :
    index ∈ set.erase range ↔ index ∈ set ∧ index ∉ range := by
  have hleft (piece : Interval) : (∃ part ∈ below range piece ++ above range piece, index ∈ part) ↔
      index ∈ piece ∧ index ∉ range := by
    simp only [List.mem_append, or_and_right, exists_or, mem_below, mem_above]
    simp only [Interval.mem_def]
    omega
  simp only [mem_def, erase, List.mem_flatMap]
  constructor
  · rintro ⟨part, ⟨piece, hpiece, hpart⟩, hindex⟩
    obtain ⟨hin, hout⟩ := (hleft piece).1 ⟨part, hpart, hindex⟩
    exact ⟨⟨piece, hpiece, hin⟩, hout⟩
  · rintro ⟨⟨piece, hpiece, hin⟩, hout⟩
    obtain ⟨part, hpart, hindex⟩ := (hleft piece).2 ⟨hin, hout⟩
    exact ⟨part, ⟨piece, hpiece, hpart⟩, hindex⟩

theorem mem_foldl_erase {ranges : List Interval} {set : IndexSet} {index : Nat} :
    index ∈ ranges.foldl erase set ↔ index ∈ set ∧ ∀ range ∈ ranges, index ∉ range := by
  induction ranges generalizing set with
  | nil => simp
  | cons range later ih => rw [List.foldl_cons, ih, mem_erase, List.forall_mem_cons, and_assoc]

theorem mem_toList {set : IndexSet} {index : Nat} : index ∈ set.toList ↔ index ∈ set := by
  simp only [toList, List.mem_flatMap, Interval.mem_toList, mem_def]

theorem length_toList (set : IndexSet) : set.toList.length = set.count := by
  rw [toList, count]
  induction set.intervals with
  | nil => rfl
  | cons range rest ih =>
    rw [List.flatMap_cons, List.length_append, ih, Interval.length_toList]
    rfl

theorem isEmpty_iff {set : IndexSet} : set.isEmpty = true ↔ set = empty := by
  obtain ⟨intervals⟩ := set
  simp [isEmpty, empty]

theorem mem_empty_insert {range : Interval} {index : Nat} :
    index ∈ empty.insert range ↔ index ∈ range := by
  rw [mem_insert]
  simp [mem_def, empty]

/-- The indices of a set, or all that are below `bound` if the set is empty. -/
def orAll (set : IndexSet) (bound : Nat) : List Nat :=
  if set.isEmpty then List.range bound else set.toList

end IndexSet

end TypedTable
