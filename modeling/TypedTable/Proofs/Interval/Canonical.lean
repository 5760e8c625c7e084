import Mathlib.Data.List.Sort
import Mathlib.Data.Set.Card
import Mathlib.Order.Bounds.Basic
import TypedTable.Interval.Bounds
import TypedTable.Proofs.Interval.Gapped

/-!
# Index sets as values

A set keeps the maximal runs of its indices and nothing else, so two sets with the same indices are
the same value, whichever calls have made them. Machine words are enough to make the calls: an
addition that stops at the last index decides no differently from one that goes on.
-/

set_option autoImplicit false

namespace TypedTable.IndexSet

variable {set other : IndexSet} {range : Interval}

/-! ## The intervals of a set are its maximal runs -/

/-- A range of indices of a set that no index of the set continues on either side. -/
structure IsRun (set : IndexSet) (range : Interval) : Prop where
  within : ∀ index ∈ range, index ∈ set
  first : ∀ index, index + 1 = range.lower → index ∉ set
  last : range.upper + 1 ∉ set

/-- Another interval leaves an index free on the side where it stands. -/
theorem Gapped.apart (h : set.Gapped) {a b : Interval} (ha : a ∈ set.intervals)
    (hb : b ∈ set.intervals) : a = b ∨ a.upper + 1 < b.lower ∨ b.upper + 1 < a.lower := by
  have hlt : set.intervals.Pairwise fun a b =>
      a = b ∨ a.upper + 1 < b.lower ∨ b.upper + 1 < a.lower := h.imp fun hlt => .inr (.inl hlt)
  have hgt : set.intervals.Pairwise fun a b =>
      b = a ∨ b.upper + 1 < a.lower ∨ a.upper + 1 < b.lower := h.imp fun hlt => .inr (.inr hlt)
  exact List.Pairwise.forall_of_forall_of_flip (fun a _ => .inl rfl) hlt hgt ha hb

theorem Gapped.isRun (h : set.Gapped) (hm : range ∈ set.intervals) : set.IsRun range where
  within index hi := ⟨range, hm, hi⟩
  first := by
    rintro index hfirst ⟨piece, hpiece, hi⟩
    have := Interval.mem_def.1 hi
    have := range.lower_le_upper
    rcases h.apart hm hpiece with rfl | hlt | hlt <;> omega
  last := by
    rintro ⟨piece, hpiece, hi⟩
    have := Interval.mem_def.1 hi
    have := range.lower_le_upper
    rcases h.apart hm hpiece with rfl | hlt | hlt <;> omega

theorem IsRun.lower_le {a b : Interval} (ha : set.IsRun a) (hb : set.IsRun b) {index : Nat}
    (hia : index ∈ a) (hib : index ∈ b) : a.lower ≤ b.lower := by
  refine Nat.le_of_not_lt fun hlt => ?_
  refine ha.first (a.lower - 1) (by omega) (hb.within _ ⟨by omega, ?_⟩)
  have := hia.1
  have := hib.2
  omega

theorem IsRun.upper_le {a b : Interval} (ha : set.IsRun a) (hb : set.IsRun b) {index : Nat}
    (hia : index ∈ a) (hib : index ∈ b) : a.upper ≤ b.upper := by
  refine Nat.le_of_not_lt fun hlt => ?_
  refine hb.last (ha.within _ ⟨?_, hlt⟩)
  have := hia.1
  have := hib.2
  omega

theorem IsRun.eq {a b : Interval} (ha : set.IsRun a) (hb : set.IsRun b) {index : Nat}
    (hia : index ∈ a) (hib : index ∈ b) : a = b := by
  obtain ⟨lower, upper, _⟩ := a
  obtain ⟨lower', upper', _⟩ := b
  obtain rfl : lower = lower' := Nat.le_antisymm (ha.lower_le hb hia hib) (hb.lower_le ha hib hia)
  obtain rfl : upper = upper' := Nat.le_antisymm (ha.upper_le hb hia hib) (hb.upper_le ha hib hia)
  rfl

theorem Gapped.mem_intervals_iff (h : set.Gapped) : range ∈ set.intervals ↔ set.IsRun range := by
  refine ⟨h.isRun, fun hrun => ?_⟩
  have hlower : range.lower ∈ range := ⟨Nat.le_refl _, range.lower_le_upper⟩
  obtain ⟨piece, hm, hi⟩ := hrun.within range.lower hlower
  rwa [(h.isRun hm).eq hrun hi hlower] at hm

theorem IsRun.congr (hrun : set.IsRun range) (hi : ∀ index, index ∈ set ↔ index ∈ other) :
    other.IsRun range where
  within index hm := (hi index).1 (hrun.within index hm)
  first index hfirst hm := hrun.first index hfirst ((hi index).2 hm)
  last hm := hrun.last ((hi _).2 hm)

instance : Std.Irrefl fun a b : Interval => a.upper + 1 < b.lower where
  irrefl a hlt := by
    have := a.lower_le_upper
    omega

instance : Std.Antisymm fun a b : Interval => a.upper + 1 < b.lower where
  antisymm a b hab hba := by
    have := a.lower_le_upper
    have := b.lower_le_upper
    omega

theorem Gapped.ext (h : set.Gapped) (ho : other.Gapped)
    (hi : ∀ index, index ∈ set ↔ index ∈ other) : set = other := by
  have hequal : set.intervals = other.intervals := by
    refine List.Pairwise.eq_of_mem_iff h ho fun range => ?_
    rw [h.mem_intervals_iff, ho.mem_intervals_iff]
    exact ⟨fun hrun => hrun.congr hi, fun hrun => hrun.congr fun index => (hi index).symm⟩
  cases set
  cases other
  exact congrArg IndexSet.mk hequal

/-! ## The greatest index and the number of indices -/

theorem Gapped.greatest (h : set.Gapped) {last : Interval}
    (hl : set.intervals.getLast? = some last) :
    last.upper ∈ set ∧ ∀ index ∈ set, index ≤ last.upper := by
  obtain ⟨before, hbefore⟩ := List.getLast?_eq_some_iff.1 hl
  have hm : last ∈ set.intervals := List.mem_of_getLast? hl
  refine ⟨⟨last, hm, last.lower_le_upper, Nat.le_refl _⟩, ?_⟩
  rintro index ⟨piece, hpiece, hi⟩
  rw [Gapped, hbefore] at h
  rw [hbefore] at hpiece
  rcases List.mem_append.1 hpiece with hpiece | hpiece
  · have := (List.pairwise_append.1 h).2.2 piece hpiece last (by simp)
    have := last.lower_le_upper
    have := hi.2
    omega
  · rw [← List.mem_singleton.1 hpiece]
    exact hi.2

theorem Gapped.max?_eq_some_iff (h : set.Gapped) {index : Nat} :
    set.max? = some index ↔ index ∈ set ∧ ∀ other ∈ set, other ≤ index := by
  rw [max?, Option.map_eq_some_iff]
  constructor
  · rintro ⟨last, hl, rfl⟩
    exact h.greatest hl
  · rintro ⟨hm, hle⟩
    obtain ⟨range, hrange, -⟩ := mem_def.1 hm
    have hl := List.getLast?_eq_some_getLast (List.ne_nil_of_mem hrange)
    exact ⟨_, hl, Nat.le_antisymm (hle _ (h.greatest hl).1) ((h.greatest hl).2 index hm)⟩

def word? (number : Nat) : Option Nat := if number < wordLimit then some number else none

def addSize? (total : Nat) (range : Interval) : Option Nat := do
  word? (total + (← word? range.size))

def wordCount? (set : IndexSet) : Option Nat := set.intervals.foldlM addSize? 0

theorem addSize?_eq (total : Nat) (range : Interval) :
    addSize? total range = word? (total + range.size) := by
  by_cases hs : range.size < wordLimit
  · have hsize : word? range.size = some range.size := if_pos hs
    rw [addSize?, hsize]
    rfl
  · have hsize : word? range.size = none := if_neg hs
    rw [addSize?, hsize, word?, if_neg (by omega)]
    rfl

/-- A sum that is too large stays so, and one that fits has overflowed nowhere. -/
theorem foldlM_addSize? {intervals : List Interval} {total : Nat} (ht : total < wordLimit) :
    intervals.foldlM addSize? total =
      word? (total + intervals.foldr (fun range count => range.size + count) 0) := by
  induction intervals generalizing total with
  | nil => exact (if_pos ht).symm
  | cons range rest ih =>
    rw [List.foldlM_cons, List.foldr_cons, addSize?_eq, ← Nat.add_assoc]
    by_cases hsum : total + range.size < wordLimit
    · have hword : word? (total + range.size) = some (total + range.size) := if_pos hsum
      rw [hword]
      exact ih hsum
    · have hword : word? (total + range.size) = none := if_neg hsum
      rw [hword, word?, if_neg (by omega)]
      rfl

theorem wordCount?_eq (set : IndexSet) : set.wordCount? = word? set.count := by
  rw [wordCount?, foldlM_addSize? (by decide), Nat.zero_add, count]

/-! ## Adding an interval in machine words -/

/-- The index after another; the last one that a machine word has room for stays where it is. -/
def wordAfter (index : Nat) : Nat := min (index + 1) (wordLimit - 1)

theorem wordAfter_lt_iff {index bound : Nat} (hb : bound < wordLimit) :
    wordAfter index < bound ↔ index + 1 < bound := by
  unfold wordAfter
  omega

/-- One pass over the intervals of a set: those that are kept so far, the added one with all that it
has swallowed, and whether it is among those kept. -/
structure Sweep where
  kept : List Interval := []
  merged : Interval
  placed : Bool := false

namespace Sweep

def place (sweep : Sweep) : List Interval :=
  if sweep.placed then sweep.kept else sweep.kept ++ [sweep.merged]

def step (sweep : Sweep) (piece : Interval) : Sweep :=
  if wordAfter piece.upper < sweep.merged.lower then
    { sweep with kept := sweep.kept ++ [piece] }
  else if wordAfter sweep.merged.upper < piece.lower then
    { sweep with kept := sweep.place ++ [piece], placed := true }
  else
    { sweep with merged := sweep.merged.hull piece }

theorem place_foldl_placed {pieces kept : List Interval} {merged : Interval}
    (hw : ∀ piece ∈ pieces, piece.upper < wordLimit)
    (hb : ∀ piece ∈ pieces, merged.upper + 1 < piece.lower) :
    (pieces.foldl step ⟨kept, merged, true⟩).place = kept ++ pieces := by
  induction pieces generalizing kept with
  | nil => exact (List.append_nil kept).symm
  | cons piece rest ih =>
    have hbehind := hb piece List.mem_cons_self
    have hword := hw piece List.mem_cons_self
    have hstep : step ⟨kept, merged, true⟩ piece = ⟨kept ++ [piece], merged, true⟩ := by
      have := merged.lower_le_upper
      have := piece.lower_le_upper
      have hlower : ¬ wordAfter piece.upper < merged.lower := by
        rw [wordAfter_lt_iff (by omega)]
        omega
      have hupper : wordAfter merged.upper < piece.lower := by
        rw [wordAfter_lt_iff (by omega)]
        exact hbehind
      dsimp only [step]
      rw [if_neg hlower, if_pos hupper]
      rfl
    rw [List.foldl_cons, hstep, ih (fun piece hm => hw piece (List.mem_cons_of_mem _ hm))
      fun piece hm => hb piece (List.mem_cons_of_mem _ hm), List.append_assoc]
    rfl

theorem place_foldl {pieces kept : List Interval} {merged : Interval}
    (hg : pieces.Pairwise fun a b => a.upper + 1 < b.lower)
    (hw : ∀ piece ∈ pieces, piece.upper < wordLimit) (hm : merged.upper < wordLimit) :
    (pieces.foldl step ⟨kept, merged, false⟩).place = kept ++ insertInto merged pieces := by
  induction pieces generalizing kept merged with
  | nil => rfl
  | cons piece rest ih =>
    obtain ⟨hpiece, hrest⟩ := List.pairwise_cons.1 hg
    have hword := hw piece List.mem_cons_self
    have hwords : ∀ piece ∈ rest, piece.upper < wordLimit := fun piece hm =>
      hw piece (List.mem_cons_of_mem _ hm)
    have hmerged : merged.lower < wordLimit := Nat.lt_of_le_of_lt merged.lower_le_upper hm
    have hlower : piece.lower < wordLimit := Nat.lt_of_le_of_lt piece.lower_le_upper hword
    simp only [List.foldl_cons, insertInto, step, wordAfter_lt_iff hmerged, wordAfter_lt_iff hlower]
    split
    next =>
      rw [ih hrest hwords hm, List.append_assoc]
      rfl
    next =>
      split
      next hbehind =>
        rw [place_foldl_placed hwords, place, if_neg Bool.false_ne_true]
        · simp only [List.append_assoc, List.cons_append, List.nil_append]
        · intro later hl
          have := hpiece later hl
          have := piece.lower_le_upper
          omega
      next => exact ih hrest hwords (Nat.max_lt.2 ⟨hm, hword⟩)

end Sweep

def wordInsert (set : IndexSet) (range : Interval) : IndexSet :=
  ⟨(set.intervals.foldl Sweep.step { merged := range }).place⟩

theorem Within.wordInsert_eq (h : set.Within wordLimit) (hr : range.upper < wordLimit) :
    set.wordInsert range = set.insert range :=
  congrArg IndexSet.mk (Sweep.place_foldl h.gapped (fun _ hm => h.upper_lt hm) hr)

/-! ## Runs -/

inductive Change where
  | insert (range : Interval)
  | erase (range : Interval)

namespace Change

def span : Change → Interval
  | insert range => range
  | erase range => range

def apply (members : Set Nat) : Change → Set Nat
  | insert range => members ∪ Set.Icc range.lower range.upper
  | erase range => members \ Set.Icc range.lower range.upper

def members (changes : List Change) : Set Nat := changes.foldl apply ∅

end Change

def perform (set : IndexSet) : Change → IndexSet
  | .insert range => set.insert range
  | .erase range => set.erase range

def performWords (set : IndexSet) : Change → IndexSet
  | .insert range => set.wordInsert range
  | .erase range => set.erase range

def run (set : IndexSet) (changes : List Change) : IndexSet := changes.foldl perform set

def runWords (set : IndexSet) (changes : List Change) : IndexSet := changes.foldl performWords set

/-- The set is the one normal form of these indices and answers for them. -/
structure Canonical (set : IndexSet) (members : Set Nat) : Prop where
  contains (index : Nat) : set.contains index = true ↔ index ∈ members
  /-- The intervals are in order, and an index is missing between two of them. -/
  gapped : set.intervals.Pairwise fun a b => a.upper + 1 < b.lower
  isEmpty : set.isEmpty = true ↔ members = ∅
  max (index : Nat) : set.max? = some index ↔ IsGreatest members index
  finite : members.Finite
  count : set.count = members.ncard
  wordCount : set.wordCount? = word? members.ncard

variable {changes : List Change}

theorem mem_perform {members : Set Nat} (hm : ∀ index, index ∈ set ↔ index ∈ members)
    (change : Change) (index : Nat) :
    index ∈ set.perform change ↔ index ∈ change.apply members := by
  cases change with
  | insert range => exact mem_insert.trans (or_congr (hm index) Iff.rfl)
  | erase range => exact mem_erase.trans (and_congr (hm index) Iff.rfl)

theorem mem_run {members : Set Nat} (hm : ∀ index, index ∈ set ↔ index ∈ members) (index : Nat) :
    index ∈ set.run changes ↔ index ∈ changes.foldl Change.apply members := by
  induction changes generalizing set members with
  | nil => exact hm index
  | cons change later ih => exact ih (mem_perform hm change)

theorem mem_run_empty (index : Nat) :
    index ∈ empty.run changes ↔ index ∈ Change.members changes := by
  refine mem_run (fun index => ?_) index
  simp [mem_def, empty]

theorem Gapped.perform (h : set.Gapped) (change : Change) : (set.perform change).Gapped := by
  cases change with
  | insert range => exact h.insert range
  | erase range => exact h.erase range

theorem Gapped.run (h : set.Gapped) (changes : List Change) : (set.run changes).Gapped := by
  induction changes generalizing set with
  | nil => exact h
  | cons change later ih => exact ih (h.perform change)

theorem Gapped.canonical (h : set.Gapped) {members : Set Nat}
    (hm : ∀ index, index ∈ set ↔ index ∈ members) : set.Canonical members := by
  have hlisted : members = (set.toList.toFinset : Set Nat) := by
    ext index
    rw [Finset.mem_coe, List.mem_toFinset, mem_toList, hm]
  have hcount : set.count = members.ncard := by
    have hnodup : set.toList.Nodup := h.pairwise_toList.imp Nat.ne_of_lt
    rw [hlisted, Set.ncard_coe_finset, List.toFinset_card_of_nodup hnodup, length_toList]
  constructor
  case contains => exact fun index => contains_iff.trans (hm index)
  case gapped => exact h
  case isEmpty =>
    rw [isEmpty_iff, Set.eq_empty_iff_forall_notMem]
    constructor
    · rintro rfl index hi
      obtain ⟨range, hr, -⟩ := (hm index).2 hi
      cases hr
    · intro hnone
      exact h.ext gapped_empty fun index => by simp [hm, hnone, mem_def, empty]
  case max =>
    intro index
    rw [h.max?_eq_some_iff, hm]
    simp only [hm]
    rfl
  case finite => exact hlisted ▸ Finset.finite_toSet _
  case count => exact hcount
  case wordCount => rw [wordCount?_eq, hcount]

theorem Within.runWords_eq (h : set.Within wordLimit)
    (hc : ∀ change ∈ changes, change.span.upper < wordLimit) :
    set.runWords changes = set.run changes ∧ (set.run changes).Within wordLimit := by
  induction changes generalizing set with
  | nil => exact ⟨rfl, h⟩
  | cons change later ih =>
    obtain ⟨hchange, hlater⟩ := List.forall_mem_cons.1 hc
    cases change with
    | insert range =>
      have hrange : range.upper < wordLimit := hchange
      rw [runWords, List.foldl_cons, performWords, h.wordInsert_eq hrange]
      exact ih (h.insert hrange) hlater
    | erase range => exact ih (h.erase range) hlater

/-- Whatever the changes, the set is the normal form of the indices that they leave, and the same as
after all other changes that leave the same indices. Within machine words nothing overflows. -/
theorem run_canonical (changes : List Change) :
    (empty.run changes).Canonical (Change.members changes) ∧
      (∀ other, Change.members other = Change.members changes →
        empty.run other = empty.run changes) ∧
      ((∀ change ∈ changes, change.span.upper < wordLimit) →
        empty.runWords changes = empty.run changes ∧
          ∀ piece ∈ (empty.run changes).intervals, piece.upper < wordLimit) := by
  refine ⟨(gapped_empty.run changes).canonical mem_run_empty, fun other ho => ?_, fun hc => ?_⟩
  · refine (gapped_empty.run other).ext (gapped_empty.run changes) fun index => ?_
    rw [mem_run_empty, mem_run_empty, ho]
  · obtain ⟨hwords, hwithin⟩ := (within_empty wordLimit).runWords_eq hc
    exact ⟨hwords, fun piece hm => hwithin.upper_lt hm⟩

def allButFirst : List Change :=
  [.insert ⟨0, wordLimit - 1, Nat.zero_le _⟩, .erase (.point 0)]

/-- All the indices are one too many to be counted in a machine word. -/
theorem run_canonical_allButFirst :
    (∀ change ∈ allButFirst, change.span.upper < wordLimit) ∧
      empty.runWords allButFirst = ⟨[⟨1, wordLimit - 1, by decide⟩]⟩ ∧
      (empty.runWords allButFirst).wordCount? = some (wordLimit - 1) ∧
      (empty.runWords (allButFirst.take 1)).wordCount? = none := by
  have hwords : ∀ change ∈ allButFirst, change.span.upper < wordLimit := by
    simp only [allButFirst, List.forall_mem_cons]
    decide
  have hrun : empty.run allButFirst = ⟨[⟨1, wordLimit - 1, by decide⟩]⟩ := by rfl
  obtain ⟨hequal, -⟩ := (run_canonical allButFirst).2.2 hwords
  rw [hequal, hrun]
  exact ⟨hwords, rfl, by decide, by decide⟩

end TypedTable.IndexSet
