import Mathlib.Algebra.GroupWithZero.Nat
import Mathlib.Tactic.SplitIfs
import TypedTable.Csv.FieldStream

/-!
# Room for fields

A table that was doubled on the way to its present size goes on doubling as if it had been doubled
at once, so whether there is room depends on the size it had first and not on what it has held. A
table that was trimmed may end up larger than one that was not, by less than a factor of two.
-/

set_option autoImplicit false

namespace TypedTable.Csv

def ReadFault.isRoomFault : ReadFault → Bool
  | .overflow _ | .memoryExhausted _ => true
  | _ => false

namespace FieldStream

/-! ## Doubling -/

variable {entries more size : Nat}

theorem doubled_of_le (h : entries ≤ size) : doubled entries size = size := by
  rw [doubled, if_pos (.inr h)]

theorem doubled_of_lt (hsize : 0 < size) (h : size < entries) :
    doubled entries size = doubled entries (2 * size) := by
  rw [doubled, if_neg (by omega)]

theorem le_doubled (hsize : 0 < size) : entries ≤ doubled entries size := by
  fun_induction doubled entries size with
  | case1 size h => omega
  | case2 size h ih => exact ih (by omega)

theorem le_doubled_self (entries size : Nat) : size ≤ doubled entries size := by
  fun_induction doubled entries size with
  | case1 size _ => exact Nat.le_refl size
  | case2 size _ ih => omega

theorem doubled_lt (h : size < entries) : doubled entries size < 2 * entries := by
  fun_induction doubled entries size with
  | case1 size _ => omega
  | case2 size _ ih =>
    rcases Nat.lt_or_ge (2 * size) entries with hless | hdone
    · exact ih hless
    · rw [doubled_of_le hdone]
      omega

theorem exists_doubled_eq (entries size : Nat) : ∃ k, doubled entries size = 2 ^ k * size := by
  fun_induction doubled entries size with
  | case1 size _ => exact ⟨0, by rw [Nat.pow_zero, Nat.one_mul]⟩
  | case2 size _ ih =>
    obtain ⟨k, hk⟩ := ih
    exact ⟨k + 1, by rw [hk, Nat.pow_succ, Nat.mul_assoc]⟩

theorem doubled_doubled (h : entries ≤ more) :
    doubled more (doubled entries size) = doubled more size := by
  fun_induction doubled entries size with
  | case1 size _ => rfl
  | case2 size hsize ih => rw [ih, ← doubled_of_lt (by omega) (by omega)]

theorem doubled_mono (h : entries ≤ more) : doubled entries size ≤ doubled more size := by
  rw [← doubled_doubled h]
  exact le_doubled_self _ _

/-! ## Room -/

variable {stream short long : FieldStream} {count : Nat}

theorem doubled_le_tableSize {reserved : Nat} (h : entries ≤ stream.tableSize reserved) :
    doubled entries stream.firstSize ≤ stream.tableSize reserved := by
  rcases Nat.le_total entries (max stream.peak reserved) with hheld | hheld
  · exact doubled_mono hheld
  · rw [← doubled_doubled hheld]
    exact Nat.le_of_eq (doubled_of_le h)

/-- Doubling from the first size comes to the same as doubling the table as it is. -/
theorem checkRoom_eq_grow (reserved : Nat) (hfirst : 0 < stream.firstSize)
    (htable : stream.tableSize reserved * 8 < wordLimit / 2) :
    stream.checkRoom count =
      let fields := stream.size + count
      let size := doubled fields (stream.tableSize reserved)
      if wordLimit ≤ fields then .error (.overflow .fieldCount)
      else if fields ≤ stream.tableSize reserved then .ok ()
      else if wordLimit ≤ size then .error (.overflow .fieldTable)
      else if wordLimit / 2 ≤ size * 8 then .error (.memoryExhausted (.fieldTable size))
      else .ok () := by
  have hheld : max stream.peak reserved ≤ stream.tableSize reserved := le_doubled hfirst
  have hbegun : stream.firstSize ≤ stream.tableSize reserved := le_doubled_self _ _
  unfold checkRoom
  dsimp only
  generalize stream.size + count = fields
  rcases Nat.lt_or_ge (stream.tableSize reserved) fields with hmore | hfits
  · have hsize : doubled fields (stream.tableSize reserved) = doubled fields stream.firstSize :=
      doubled_doubled (Nat.le_trans hheld (Nat.le_of_lt hmore))
    rw [hsize, if_neg (Nat.not_le.2 hmore),
      if_neg (Nat.not_le.2 (Nat.lt_of_le_of_lt hbegun hmore))]
  · have hsize := doubled_le_tableSize hfits
    rw [if_pos hfits, if_neg (c := wordLimit ≤ doubled fields stream.firstSize) (by omega),
      if_neg (c := wordLimit / 2 ≤ doubled fields stream.firstSize * 8) (by omega), ite_self]

/-- A table that is doubled from two on has a power of two entries, so one that begins elsewhere is
still small enough with less than twice as many. -/
theorem doubled_room_of_two (h : doubled entries 2 * 8 < wordLimit / 2) (hmore : size < entries) :
    doubled entries size * 8 < wordLimit / 2 := by
  obtain ⟨k, hk⟩ := exists_doubled_eq entries 2
  have hentries : entries ≤ doubled entries 2 := le_doubled (by decide)
  have hless := doubled_lt hmore
  have hhalf : wordLimit / 2 = 2 ^ 63 := rfl
  rw [hk, ← Nat.pow_succ] at hentries h
  have hexponent : k + 1 + 3 < 63 := by
    rw [← Nat.pow_lt_pow_iff_right (a := 2) (by decide), Nat.pow_add, ← hhalf]
    exact h
  have hpower : 2 ^ (k + 1) ≤ 2 ^ 59 := Nat.pow_le_pow_right (by decide) (by omega)
  omega

theorem checkRoom_eq_ok_iff :
    stream.checkRoom count = .ok () ↔ stream.size + count < wordLimit ∧
      (stream.size + count ≤ stream.firstSize ∨
        doubled (stream.size + count) stream.firstSize * 8 < wordLimit / 2) := by
  unfold checkRoom
  dsimp only
  generalize doubled (stream.size + count) stream.firstSize = size
  split_ifs <;> simp <;> omega

/-- Fewer fields have room wherever more of them have, in a table that was never trimmed or in one
of the same first size. -/
theorem checkRoom_of_larger (h : short.size ≤ long.size)
    (hfirst : short.firstSize = long.firstSize ∨ long.firstSize = 2)
    (hl : long.checkRoom count = .ok ()) : short.checkRoom count = .ok () := by
  have hfields : short.size + count ≤ long.size + count := Nat.add_le_add_right h count
  rw [checkRoom_eq_ok_iff] at hl ⊢
  refine ⟨Nat.lt_of_le_of_lt hfields hl.1, (Nat.lt_or_ge short.firstSize _).symm.imp_right ?_⟩
  intro hmore
  rcases hfirst with hsame | htwo
  · have hroom := hl.2.resolve_left (by omega)
    have hsize : doubled _ long.firstSize ≤ doubled _ long.firstSize := doubled_mono hfields
    rw [hsame]
    omega
  · rw [htwo] at hl
    refine doubled_room_of_two ?_ hmore
    have hsize : doubled _ 2 ≤ doubled _ 2 := doubled_mono hfields
    rcases hl.2 with hfew | hroom
    · rw [doubled_of_le (Nat.le_trans hfields hfew)]
      decide
    · omega

theorem checkRoom_congr (h : short.size = long.size) (hfirst : short.firstSize = long.firstSize)
    (count : Nat) : short.checkRoom count = long.checkRoom count := by
  rw [checkRoom, checkRoom, h, hfirst]

theorem checkRoom_fault {fault : ReadFault} (h : stream.checkRoom count = .error fault) :
    fault.isRoomFault = true := by
  unfold checkRoom at h
  dsimp only at h
  split_ifs at h <;> cases h <;> rfl

end FieldStream

end TypedTable.Csv
