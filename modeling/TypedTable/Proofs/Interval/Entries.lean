import TypedTable.Proofs.Interval.Lookups

/-!
# What calls leave in an interval map

A map holds the entries that were put into it since it was last emptied, except those that an entry
was in the way of. Every look-up answers for just these.
-/

set_option autoImplicit false

namespace TypedTable.RangeMap

variable {α : Type}

inductive Change (α : Type) where
  | insert (range : Interval) (value : α)
  | drain

def perform (map : RangeMap α) : Change α → RangeMap α
  | .insert range value =>
    match map.insert range value with
    | .ok later => later
    | .error refused => refused.left
  | .drain => map.drain.2

def run (map : RangeMap α) (changes : List (Change α)) : RangeMap α := changes.foldl perform map

def held (entries : List (Interval × α)) : Change α → List (Interval × α)
  | .insert range value =>
    if entries.any fun entry => entry.1.meets range then entries else (range, value) :: entries
  | .drain => []

/-- The map holds these entries and answers for them. -/
structure Exact (map : RangeMap α) (entries : List (Interval × α)) : Prop where
  /-- It lists each of them once. -/
  holds : map.entries.Perm entries
  /-- It has them in the order of the lower bounds, no two under the same one. -/
  ordered : map.entries.Pairwise fun a b => a.1.lower < b.1.lower
  disjoint : map.entries.Pairwise fun a b => ∀ index ∈ a.1, index ∉ b.1
  drain : map.drain = (map.entries, empty)
  insert (range : Interval) (value : α) : (∃ later, map.insert range value = .ok later) ↔
    ∀ entry ∈ entries, ∀ index ∈ entry.1, index ∉ range
  inserted (range : Interval) (value : α) (later : RangeMap α) :
    map.insert range value = .ok later → later.entries.Perm ((range, value) :: entries)
  refused (range : Interval) (value : α) (refused : Refused (RangeMap α)) :
    map.insert range value = .error refused →
      refused.fault = .invalidArgument (.overlap range) ∧ refused.left = map ∧
        map.perform (.insert range value) = map
  find (index : Nat) (entry : Interval × α) :
    map.find? index = some entry ↔ entry ∈ entries ∧ index ∈ entry.1
  missing (index : Nat) : map.find? index = none ↔ ∀ entry ∈ entries, index ∉ entry.1
  range (query : Interval) (entry : Interval × α) :
    entry ∈ map.range query ↔ entry ∈ entries ∧ ∃ index ∈ entry.1, index ∈ query
  /-- What a range finds is in order as well, and none of it comes up twice. -/
  rangeOrdered (query : Interval) : (map.range query).Sublist map.entries

variable {map later : RangeMap α} {entries : List (Interval × α)}

theorem insert_eq_error (hs : map.Sorted) {range : Interval} {value : α}
    {refused : Refused (RangeMap α)} (he : map.insert range value = .error refused) :
    refused = ⟨.invalidArgument (.overlap range), map⟩ ∧
      ∃ entry ∈ map.entries, entry.1.meets range = true := by
  unfold insert at he
  split at he
  next => cases he
  next hfound =>
    cases he
    obtain ⟨entry, hm⟩ := List.exists_mem_of_ne_nil _ (mt List.isEmpty_iff.2 hfound)
    exact ⟨rfl, entry, (mem_range_iff hs).1 hm⟩

theorem exists_insert_iff (hs : map.Sorted) {range : Interval} {value : α} :
    (∃ later, map.insert range value = .ok later) ↔
      ∀ entry ∈ map.entries, entry.1.meets range = false := by
  constructor
  · rintro ⟨later, hok⟩
    exact ((insert_eq_ok_iff hs).1 hok).1
  · intro ha
    exact ⟨_, insert_of_apart hs range value ha⟩

theorem Sorted.perform (hs : map.Sorted) (change : Change α) : (map.perform change).Sorted := by
  cases change with
  | insert range value =>
    unfold RangeMap.perform
    dsimp only
    split
    next later hok => exact hs.insert hok
    next refused he =>
      obtain ⟨rfl, -⟩ := insert_eq_error hs he
      exact hs
  | drain => exact List.Pairwise.nil

theorem perform_perm (hs : map.Sorted) (hp : map.entries.Perm entries) (change : Change α) :
    (map.perform change).entries.Perm (held entries change) := by
  cases change with
  | insert range value =>
    unfold perform held
    dsimp only
    rw [← hp.any_eq]
    split
    next later hok =>
      obtain ⟨ha, rfl⟩ := (insert_eq_ok_iff hs).1 hok
      have hnone : (map.entries.any fun entry => entry.1.meets range) = false :=
        List.any_eq_false.2 fun entry hm => Bool.eq_false_iff.1 (ha entry hm)
      rw [hnone, if_neg Bool.false_ne_true]
      exact (insertInto_perm ha).trans (hp.cons _)
    next refused he =>
      obtain ⟨rfl, hmeets⟩ := insert_eq_error hs he
      rw [if_pos (List.any_eq_true.2 hmeets)]
      exact hp
  | drain => exact .refl _

theorem Sorted.run (hs : map.Sorted) (changes : List (Change α)) : (map.run changes).Sorted := by
  induction changes generalizing map with
  | nil => exact hs
  | cons change later ih => exact ih (hs.perform change)

theorem run_perm (hs : map.Sorted) (hp : map.entries.Perm entries) (changes : List (Change α)) :
    (map.run changes).entries.Perm (changes.foldl held entries) := by
  induction changes generalizing map entries with
  | nil => exact hp
  | cons change later ih => exact ih (hs.perform change) (perform_perm hs hp change)

theorem exact_of_sorted (hs : map.Sorted) (hp : map.entries.Perm entries) :
    Exact map entries where
  holds := hp
  ordered := hs.imp fun {a b} hlt => Nat.lt_of_le_of_lt a.1.lower_le_upper hlt
  disjoint := hs.imp fun {a b} hlt index ha hb =>
    Nat.lt_irrefl index (Nat.lt_of_le_of_lt ha.2 (Nat.lt_of_lt_of_le hlt hb.1))
  drain := rfl
  insert range value := by
    rw [exists_insert_iff hs]
    simp only [hp.mem_iff, Interval.not_meets_iff]
  inserted range value later hok := by
    obtain ⟨ha, rfl⟩ := (insert_eq_ok_iff hs).1 hok
    exact (insertInto_perm ha).trans (hp.cons _)
  refused range value refused he := by
    obtain ⟨rfl, -⟩ := insert_eq_error hs he
    refine ⟨rfl, rfl, ?_⟩
    rw [perform, he]
  find index entry := by
    rw [← hp.mem_iff]
    exact ⟨mem_of_find?, fun ⟨hm, hi⟩ => find?_of_mem hs hm hi⟩
  missing index := by
    rw [Option.eq_none_iff_forall_ne_some]
    constructor
    · intro hnone entry hm hi
      exact hnone entry (find?_of_mem hs (hp.mem_iff.2 hm) hi)
    · intro hall entry hfound
      obtain ⟨hm, hi⟩ := mem_of_find? hfound
      exact hall entry (hp.mem_iff.1 hm) hi
  range query entry := by
    rw [mem_range_iff hs, hp.mem_iff, Interval.meets_iff_exists]
  rangeOrdered query := List.filter_sublist

/-- After any calls a map answers for the entries that they have left in it. -/
theorem run_exact (changes : List (Change α)) :
    Exact (empty.run changes) (changes.foldl held []) :=
  exact_of_sorted (Sorted.run List.Pairwise.nil changes)
    (run_perm List.Pairwise.nil (.refl _) changes)

/-- The first entry begins before the range and reaches into it; the third call is refused. -/
example : (empty.run [.insert ⟨0, 3, by decide⟩ 'a', .insert ⟨6, 6, by decide⟩ 'b',
    .insert ⟨3, 5, by decide⟩ 'c']).range ⟨2, 9, by decide⟩ =
      [(⟨0, 3, by decide⟩, 'a'), (⟨6, 6, by decide⟩, 'b')] := by
  decide

end TypedTable.RangeMap
