import TypedTable.Interval.RangeMap
import TypedTable.Proofs.Outcome

/-!
# Look-ups in interval maps

A look-up needs no more than the nearest entry on the left, and that is enough because the intervals
of a map are disjoint. They are disjoint because an interval is only put in when a look-up finds
nothing in its way. So both hold together, after any calls.
-/

set_option autoImplicit false

namespace TypedTable

variable {α : Type}

namespace Interval

def meets (a b : Interval) : Bool := decide (a.lower ≤ b.upper ∧ b.lower ≤ a.upper)

theorem meets_iff {a b : Interval} :
    a.meets b = true ↔ a.lower ≤ b.upper ∧ b.lower ≤ a.upper := by
  simp [meets]

theorem meets_iff_exists {a b : Interval} :
    a.meets b = true ↔ ∃ index, index ∈ a ∧ index ∈ b := by
  have := a.lower_le_upper
  have := b.lower_le_upper
  rw [meets_iff]
  constructor
  · intro h
    exact ⟨max a.lower b.lower, by simp only [mem_def]; omega⟩
  · rintro ⟨index, ha, hb⟩
    simp only [mem_def] at ha hb
    omega

theorem not_meets_iff {a b : Interval} : a.meets b = false ↔ ∀ index ∈ a, index ∉ b := by
  rw [Bool.eq_false_iff, ne_eq, meets_iff_exists]
  simp

theorem isSome_intersect (a b : Interval) : (a.intersect b).isSome = a.meets b := by
  unfold intersect
  split
  next h =>
    refine (meets_iff.2 ?_).symm
    omega
  next h =>
    refine (Bool.eq_false_iff.2 fun hmeets => ?_).symm
    have := meets_iff.1 hmeets
    have := a.lower_le_upper
    have := b.lower_le_upper
    omega

end Interval

namespace RangeMap

def Sorted (map : RangeMap α) : Prop :=
  map.entries.Pairwise fun a b => a.1.upper < b.1.lower

variable {map later : RangeMap α} {entry other : Interval × α} {index : Nat}

/-! ## The nearest entry on the left -/

theorem mem_takeWhile_lower {entries : List (Interval × α)}
    (hs : entries.Pairwise fun a b => a.1.upper < b.1.lower) (hm : entry ∈ entries)
    (hl : entry.1.lower ≤ index) :
    entry ∈ entries.takeWhile fun entry => decide (entry.1.lower ≤ index) := by
  induction entries with
  | nil => simp at hm
  | cons first behind ih =>
    obtain ⟨hfirst, hbehind⟩ := List.pairwise_cons.1 hs
    have hle : first.1.lower ≤ entry.1.lower := by
      rcases List.mem_cons.1 hm with rfl | hm
      · exact Nat.le_refl _
      · have := hfirst entry hm
        have := first.1.lower_le_upper
        omega
    rw [List.takeWhile_cons_of_pos (by simpa using Nat.le_trans hle hl)]
    rcases List.mem_cons.1 hm with rfl | hm
    · exact List.mem_cons_self
    · exact List.mem_cons_of_mem first (ih hbehind hm)

theorem mem_of_floor? (h : map.floor? index = some entry) :
    entry ∈ map.entries ∧ entry.1.lower ≤ index := by
  have hm := List.mem_of_getLast? h
  exact ⟨List.takeWhile_subset _ hm, by simpa using List.all_eq_true.1 List.all_takeWhile entry hm⟩

/-- An entry that begins at an index or before is the nearest one or ends before it. -/
theorem eq_or_lt_of_floor? (hs : map.Sorted) (h : map.floor? index = some entry)
    (hm : other ∈ map.entries) (hl : other.1.lower ≤ index) :
    other = entry ∨ other.1.upper < entry.1.lower := by
  have hother := mem_takeWhile_lower hs hm hl
  obtain ⟨before, hbefore⟩ := List.getLast?_eq_some_iff.1 h
  have hordered := hs.sublist (List.takeWhile_sublist fun entry => decide (entry.1.lower ≤ index))
  rw [hbefore] at hother hordered
  rcases List.mem_append.1 hother with hm | hm
  · exact .inr ((List.pairwise_append.1 hordered).2.2 other hm entry (by simp))
  · exact .inl (List.mem_singleton.1 hm)

theorem lt_lower_of_floor? (hs : map.Sorted) (h : map.floor? index = none)
    (hm : other ∈ map.entries) : index < other.1.lower := by
  refine Nat.lt_of_not_le fun hl => ?_
  have hother := mem_takeWhile_lower hs hm hl
  rw [List.getLast?_eq_none_iff.1 h] at hother
  cases hother

/-! ## Look-ups -/

theorem find?_of_mem (hs : map.Sorted) (hm : entry ∈ map.entries) (hi : index ∈ entry.1) :
    map.find? index = some entry := by
  have hfloor : map.floor? index = some entry := by
    cases h : map.floor? index with
    | none => exact absurd hi.1 (Nat.not_le.2 (lt_lower_of_floor? hs h hm))
    | some nearest =>
      rcases eq_or_lt_of_floor? hs h hm hi.1 with rfl | hlt
      · rfl
      · have := (mem_of_floor? h).2
        have := hi.2
        omega
  rw [find?, hfloor, Option.filter_some, if_pos (Interval.contains_iff.2 hi)]

theorem mem_of_find? (hf : map.find? index = some entry) :
    entry ∈ map.entries ∧ index ∈ entry.1 := by
  obtain ⟨hfloor, hcontains⟩ := Option.filter_eq_some_iff.1 hf
  exact ⟨(mem_of_floor? hfloor).1, Interval.contains_iff.1 hcontains⟩

/-- The entries found in a sorted map are those that meet the range. -/
theorem range_eq_filter (hs : map.Sorted) (query : Interval) :
    map.range query = map.entries.filter fun entry => entry.1.meets query := by
  refine List.filter_congr fun entry hm => ?_
  rw [Interval.isSome_intersect, Bool.and_eq_right_iff_imp, decide_eq_true_eq, Interval.meets_iff]
  rintro ⟨hupper, hlower⟩
  refine ⟨?_, hupper⟩
  -- what begins before the nearest entry also ends before it, so it does not reach the range
  cases h : map.floor? query.lower with
  | none =>
    have := lt_lower_of_floor? hs h hm
    simp only [Option.map_none, Option.getD_none]
    omega
  | some nearest =>
    simp only [Option.map_some, Option.getD_some]
    have := (mem_of_floor? h).2
    refine Nat.le_of_not_lt fun hlt => ?_
    rcases eq_or_lt_of_floor? hs h hm (by omega) with rfl | hend
    · exact Nat.lt_irrefl _ hlt
    · omega

theorem mem_range_iff (hs : map.Sorted) {query : Interval} :
    entry ∈ map.range query ↔ entry ∈ map.entries ∧ entry.1.meets query = true := by
  rw [range_eq_filter hs, List.mem_filter]

/-! ## New entries -/

/-- What is in the way of an entry stays, and so does all else. -/
theorem leaves_insert {map : RangeMap α} {range : Interval} {value : α} :
    Leaves map (map.insert range value) := by
  unfold insert
  split
  · exact .ok _
  · exact .error _

theorem insert_of_apart (hs : map.Sorted) (span : Interval) (value : α)
    (ha : ∀ entry ∈ map.entries, entry.1.meets span = false) :
    map.insert span value = .ok ⟨insertInto span value map.entries⟩ := by
  have hnone : map.range span = [] := by
    rw [range_eq_filter hs, List.filter_eq_nil_iff]
    intro entry hm
    rw [ha entry hm]
    exact Bool.false_ne_true
  rw [insert, hnone]
  rfl

/-- An interval is put in if and only if it is in nobody's way. -/
theorem insert_eq_ok_iff (hs : map.Sorted) {span : Interval} {value : α} :
    map.insert span value = .ok later ↔
      (∀ entry ∈ map.entries, entry.1.meets span = false) ∧
        later = ⟨insertInto span value map.entries⟩ := by
  constructor
  · intro h
    unfold insert at h
    split at h
    next hempty =>
      cases h
      refine ⟨fun entry hm => ?_, rfl⟩
      rw [List.isEmpty_iff, range_eq_filter hs, List.filter_eq_nil_iff] at hempty
      exact Bool.eq_false_iff.2 (hempty entry hm)
    next => cases h
  · rintro ⟨ha, rfl⟩
    exact insert_of_apart hs span value ha

theorem insertInto_perm {entries : List (Interval × α)} {span : Interval} {value : α}
    (ha : ∀ entry ∈ entries, entry.1.meets span = false) :
    (insertInto span value entries).Perm ((span, value) :: entries) := by
  induction entries with
  | nil => exact .refl _
  | cons head rest ih =>
    unfold insertInto
    split
    next =>
      exact ((ih fun entry hm => ha entry (List.mem_cons_of_mem head hm)).cons head).trans
        (.swap _ _ rest)
    next =>
      split
      next heq =>
        have hmeets : head.1.meets span = true :=
          Interval.meets_iff.2 ⟨heq ▸ span.lower_le_upper, heq ▸ head.1.lower_le_upper⟩
        rw [ha head List.mem_cons_self] at hmeets
        cases hmeets
      next => exact .refl _

theorem pairwise_insertInto {entries : List (Interval × α)} {span : Interval} {value : α}
    (hs : entries.Pairwise fun a b => a.1.upper < b.1.lower)
    (ha : ∀ entry ∈ entries, entry.1.meets span = false) :
    (insertInto span value entries).Pairwise fun a b => a.1.upper < b.1.lower := by
  induction entries with
  | nil => exact List.pairwise_singleton _ _
  | cons head rest ih =>
    obtain ⟨hfirst, hrest⟩ := List.pairwise_cons.1 hs
    have hrestApart : ∀ entry ∈ rest, entry.1.meets span = false := fun entry hm =>
      ha entry (List.mem_cons_of_mem head hm)
    have hhead : ¬(head.1.lower ≤ span.upper ∧ span.lower ≤ head.1.upper) := fun h => by
      have hmeets := ha head List.mem_cons_self
      rw [Interval.meets_iff.2 h] at hmeets
      cases hmeets
    have := head.1.lower_le_upper
    have := span.lower_le_upper
    unfold insertInto
    split
    next hbefore =>
      refine List.pairwise_cons.2 ⟨fun entry hm => ?_, ih hrest hrestApart⟩
      rcases List.mem_cons.1 ((insertInto_perm hrestApart).mem_iff.1 hm) with rfl | hm
      · dsimp only
        omega
      · exact hfirst entry hm
    next hbehind =>
      rw [if_neg (by omega)]
      refine List.pairwise_cons.2 ⟨fun entry hm => ?_, hs⟩
      rcases List.mem_cons.1 hm with rfl | hm
      · dsimp only
        omega
      · have := hfirst entry hm
        dsimp only
        omega

theorem Sorted.insert (hs : map.Sorted) {span : Interval} {value : α}
    (hok : map.insert span value = .ok later) : later.Sorted := by
  obtain ⟨ha, rfl⟩ := (insert_eq_ok_iff hs).1 hok
  exact pairwise_insertInto hs ha

theorem insert_last (hs : map.Sorted) (span : Interval) (value : α)
    (hl : ∀ entry ∈ map.entries, entry.1.upper < span.lower) :
    map.insert span value = .ok ⟨map.entries ++ [(span, value)]⟩ := by
  have hinto (entries : List (Interval × α)) (hl : ∀ entry ∈ entries, entry.1.upper < span.lower) :
      insertInto span value entries = entries ++ [(span, value)] := by
    induction entries with
    | nil => rfl
    | cons entry rest ih =>
      have hlt : entry.1.lower < span.lower :=
        Nat.lt_of_le_of_lt entry.1.lower_le_upper (hl entry (by simp))
      rw [insertInto, if_pos hlt, ih fun e he => hl e (by simp [he])]
      rfl
  rw [insert_of_apart hs span value, hinto map.entries hl]
  intro entry hm
  rw [Bool.eq_false_iff, ne_eq, Interval.meets_iff]
  have := hl entry hm
  omega

theorem Sorted.append (hs : map.Sorted) (span : Interval) (value : α)
    (hl : ∀ entry ∈ map.entries, entry.1.upper < span.lower) :
    Sorted ⟨map.entries ++ [(span, value)]⟩ := by
  refine List.pairwise_append.2 ⟨hs, List.pairwise_singleton _ _, fun entry hm last hlast => ?_⟩
  rw [List.mem_singleton.1 hlast]
  exact hl entry hm

end RangeMap

end TypedTable
