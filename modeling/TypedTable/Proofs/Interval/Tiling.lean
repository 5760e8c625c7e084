import TypedTable.Proofs.Interval.Lookups

/-!
# Interval maps without gaps

The entries of a tiling follow one another without a gap, so every index below the bound is in one of
them, and in no other.
-/

set_option autoImplicit false

namespace TypedTable

variable {α β : Type}

/-- The entries cover the indices from `first` up to, but without, `bound`, one after the other. -/
def Tiles : Nat → List (Interval × α) → Nat → Prop
  | first, [], bound => first = bound
  | first, entry :: later, bound =>
    entry.1.lower = first ∧ Tiles (entry.1.upper + 1) later bound

namespace Tiles

variable {first middle bound : Nat} {entries later : List (Interval × α)}

theorem le (h : Tiles first entries bound) : first ≤ bound := by
  induction entries generalizing first with
  | nil => exact Nat.le_of_eq h
  | cons entry later ih =>
    have := ih h.2
    have := entry.1.lower_le_upper
    have := h.1
    omega

theorem append (h : Tiles first entries middle) (hl : Tiles middle later bound) :
    Tiles first (entries ++ later) bound := by
  induction entries generalizing first with
  | nil =>
    obtain rfl : first = middle := h
    exact hl
  | cons entry rest ih => exact ⟨h.1, ih h.2⟩

theorem bounds (h : Tiles first entries bound) {entry : Interval × α} (hmem : entry ∈ entries) :
    first ≤ entry.1.lower ∧ entry.1.upper < bound := by
  induction entries generalizing first with
  | nil => simp at hmem
  | cons head rest ih =>
    have hle := h.2.le
    have := h.1
    rcases List.mem_cons.1 hmem with rfl | hmem
    · omega
    · have := ih h.2 hmem
      have := head.1.lower_le_upper
      omega

theorem pairwise (h : Tiles first entries bound) :
    entries.Pairwise fun a b => a.1.upper < b.1.lower := by
  induction entries generalizing first with
  | nil => exact .nil
  | cons head rest ih =>
    refine List.pairwise_cons.2 ⟨fun entry hmem => ?_, ih h.2⟩
    exact (h.2.bounds hmem).1

theorem exists_mem (h : Tiles first entries bound) {index : Nat} (hf : first ≤ index)
    (hb : index < bound) : ∃ entry ∈ entries, index ∈ entry.1 := by
  induction entries generalizing first with
  | nil =>
    have : first = bound := h
    omega
  | cons head rest ih =>
    by_cases hi : index ≤ head.1.upper
    · exact ⟨head, by simp, h.1 ▸ hf, hi⟩
    · obtain ⟨entry, hmem, hentry⟩ := ih h.2 (by omega)
      exact ⟨entry, by simp [hmem], hentry⟩

theorem unique (h : Tiles first entries bound) {a b : Interval × α} (ha : a ∈ entries)
    (hb : b ∈ entries) {index : Nat} (hia : index ∈ a.1) (hib : index ∈ b.1) : a = b := by
  have hs : RangeMap.Sorted ⟨entries⟩ := h.pairwise
  have hfound := RangeMap.find?_of_mem hs ha hia
  rw [RangeMap.find?_of_mem hs hb hib] at hfound
  exact (Option.some.inj hfound).symm

theorem map_shift (f : α → β) (amount : Nat) (h : Tiles first entries bound) :
    Tiles (first + amount) (entries.map fun entry => (entry.1.shift amount, f entry.2))
      (bound + amount) := by
  induction entries generalizing first with
  | nil => exact congrArg (· + amount) h
  | cons head rest ih =>
    refine ⟨congrArg (· + amount) h.1, ?_⟩
    have := ih h.2
    rwa [Nat.add_right_comm] at this

end Tiles

end TypedTable
