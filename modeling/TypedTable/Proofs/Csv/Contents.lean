import Mathlib.Tactic.SplitIfs
import TypedTable.Csv.Splitter

/-!
# What a splitter holds

A stream of fields holds a list of finished fields and the bytes of the field being built. A
splitter holds the rows of its committed lines and the fields of the line under construction. The
moves of a splitter act on these lists in the obvious way.
-/

set_option autoImplicit false

namespace TypedTable.Csv

theorem toList_drop {α : Type} (entries : Array α) (count : Nat) :
    (entries.drop count).toList = entries.toList.drop count := by
  rw [Array.drop_eq_extract, Array.toList_extract, List.extract_eq_take_drop,
    List.take_of_length_le (by simp)]

namespace FieldStream

def encoded (fields : List (List UInt8)) : List UInt8 := fields.flatMap (· ++ [0])

@[simp] theorem encoded_nil : encoded [] = [] := rfl

@[simp] theorem encoded_append (fields more : List (List UInt8)) :
    encoded (fields ++ more) = encoded fields ++ encoded more := List.flatMap_append

@[simp] theorem encoded_singleton (field : List UInt8) : encoded [field] = field ++ [0] := by
  simp [encoded]

theorem encoded_cons (field : List UInt8) (more : List (List UInt8)) :
    encoded (field :: more) = field ++ 0 :: encoded more := by
  simp [encoded]

structure Holds (stream : FieldStream) (fields : List (List UInt8)) (rest : List UInt8) :
    Prop where
  bytes : stream.bytes.toList = encoded fields ++ rest
  size : stream.starts.size = fields.length
  start : ∀ index ≤ fields.length, stream.start index = (encoded (fields.take index)).length

variable {stream : FieldStream} {fields : List (List UInt8)} {rest : List UInt8}

theorem holds_empty : ({} : FieldStream).Holds [] [] where
  bytes := rfl
  size := rfl
  start index h := by
    obtain rfl : index = 0 := Nat.le_zero.1 h
    rfl

namespace Holds

theorem openStart (h : stream.Holds fields rest) : stream.openStart = (encoded fields).length := by
  have hs := h.start fields.length (Nat.le_refl _)
  rwa [FieldStream.start, Array.getElem?_eq_none (Nat.le_of_eq h.size), List.take_length] at hs

theorem push (h : stream.Holds fields rest) (byte : UInt8) :
    (stream.push byte).Holds fields (rest ++ [byte]) where
  bytes := by simp [FieldStream.push, h.bytes]
  size := h.size
  start := h.start

theorem close (h : stream.Holds fields rest) : stream.close.Holds (fields ++ [rest]) [] where
  bytes := by simp [FieldStream.close, h.bytes]
  size := by simp [FieldStream.close, h.size]
  start index hi := by
    rw [List.length_append, List.length_singleton] at hi
    have hbytes : stream.bytes.size = (encoded fields ++ rest).length := by
      rw [← h.bytes, Array.length_toList]
    by_cases hlt : index < fields.length
    · have hold := h.start index (Nat.le_of_lt hlt)
      have hs : index < stream.starts.size := by rw [h.size]; exact hlt
      rw [List.take_append_of_le_length (Nat.le_of_lt hlt), ← hold]
      simp [FieldStream.close, FieldStream.start, Array.getElem?_push, hs, Nat.ne_of_lt hs]
    · by_cases heq : index = fields.length
      · subst heq
        rw [List.take_left, ← h.openStart]
        simp [FieldStream.close, FieldStream.start, ← h.size]
      · have hlast : index = fields.length + 1 := by omega
        subst hlast
        rw [List.take_of_length_le (by simp), encoded_append, encoded_singleton]
        simp [FieldStream.close, FieldStream.start, ← h.size, hbytes]
        omega

theorem encoded_split {index : Nat} (hlt : index < fields.length) :
    encoded fields =
      encoded (fields.take index) ++ (fields[index] ++ 0 :: encoded (fields.drop (index + 1))) := by
  rw [← encoded_cons, ← encoded_append, List.getElem_cons_drop, List.take_append_drop]

theorem start_succ (h : stream.Holds fields rest) {index : Nat} (hlt : index < fields.length) :
    stream.start (index + 1) = stream.start index + (fields[index].length + 1) := by
  rw [h.start (index + 1) hlt, h.start index (Nat.le_of_lt hlt),
    List.take_succ_eq_append_getElem hlt, encoded_append, encoded_singleton, List.length_append,
    List.length_append, List.length_singleton]

theorem field (h : stream.Holds fields rest) {index : Nat} {field : List UInt8}
    (hf : fields[index]? = some field) : stream.field index = field := by
  obtain ⟨hlt, rfl⟩ := List.getElem?_eq_some_iff.1 hf
  rw [FieldStream.field, Array.toList_extract, h.start_succ hlt, h.bytes, encoded_split hlt,
    h.start index (Nat.le_of_lt hlt)]
  simp

theorem map_field (h : stream.Holds fields rest) :
    (List.range stream.size).map stream.field = fields := by
  apply List.ext_getElem
  · simp [FieldStream.size, h.size]
  intro index _ hf
  rw [List.getElem_map, List.getElem_range, h.field (List.getElem?_eq_getElem hf)]

/-- The region of a finished field lies in the stream and ends with a zero byte. -/
theorem region (h : stream.Holds fields rest) {index : Nat} (hlt : index < fields.length) :
    stream.start index < stream.start (index + 1) ∧
      stream.start (index + 1) ≤ stream.bytes.size ∧
      stream.bytes[stream.start (index + 1) - 1]? = some 0 := by
  have hnext := h.start_succ hlt
  have hbytes : stream.bytes.toList[stream.start (index + 1) - 1]? = some 0 := by
    rw [h.bytes, encoded_split hlt, hnext, h.start index (Nat.le_of_lt hlt)]
    simp
  have hin := (List.getElem?_eq_some_iff.1 hbytes).1
  rw [Array.length_toList] at hin
  exact ⟨by omega, by omega, by rw [← Array.getElem?_toList, hbytes]⟩

theorem dropLast {kept : List (List UInt8)} (h : stream.Holds (kept ++ fields) []) :
    (stream.dropLast fields.length).Holds kept [] := by
  unfold FieldStream.dropLast
  have hfirst : stream.size - fields.length = kept.length := by
    rw [FieldStream.size, h.size, List.length_append, Nat.add_sub_cancel]
  split_ifs with hnone
  · obtain rfl : fields = [] := List.eq_nil_of_length_eq_zero hnone
    rw [List.append_nil] at h
    have hsize : stream.bytes.size = stream.openStart := by
      rw [h.openStart, ← Array.length_toList, h.bytes, List.append_nil]
    rw [hsize]
    exact h
  · have hstart := h.start kept.length (by simp)
    rw [List.take_left] at hstart
    have hbytes : (stream.bytes.take (stream.start kept.length)).toList = encoded kept := by
      rw [hstart, Array.take_eq_extract, Array.toList_extract, h.bytes]
      simp
    simp only [hfirst]
    refine ⟨by rw [hbytes, List.append_nil], by simp [h.size], fun index hi => ?_⟩
    rcases Nat.lt_or_eq_of_le hi with hlt | rfl
    · have hold := h.start index (by rw [List.length_append]; omega)
      rw [List.take_append_of_le_length hi] at hold
      rw [← hold]
      simp only [FieldStream.start, ← Array.getElem?_toList, Array.take_eq_extract,
        Array.toList_extract, List.extract_eq_take_drop, List.drop_zero, Nat.sub_zero,
        List.getElem?_take_of_lt hlt]
      rw [List.getElem?_eq_getElem (by simp [h.size]; omega)]
      rfl
    · rw [List.take_length, ← hbytes, Array.length_toList]
      simp [FieldStream.start, h.size]

theorem dropFirst {gone : List (List UInt8)} (h : stream.Holds (gone ++ fields) rest) :
    (stream.dropFirst gone.length).Holds fields rest := by
  have hcut : (if gone.length = 0 then 0 else stream.start gone.length) =
      (encoded gone).length := by
    split_ifs with hnone
    · simp [List.eq_nil_of_length_eq_zero hnone]
    · rw [h.start gone.length (by simp), List.take_left]
  unfold FieldStream.dropFirst
  simp only [hcut]
  refine ⟨?_, by simp [h.size], fun index hi => ?_⟩
  · rw [toList_drop, h.bytes]
    simp
  · have hold := h.start (gone.length + index) (by rw [List.length_append]; omega)
    rw [List.take_length_add_append, encoded_append, List.length_append] at hold
    rw [← Nat.add_sub_cancel_left (n := (encoded gone).length)
      (m := (encoded (fields.take index)).length), ← hold]
    simp only [FieldStream.start]
    rw [Array.getElem?_map, ← Array.getElem?_toList, toList_drop, List.getElem?_drop,
      Array.getElem?_toList]
    cases stream.starts[gone.length + index]? <;> rfl

end Holds

end FieldStream

namespace Splitter

def rows (s : Splitter) : List (List (List UInt8)) := s.lines.toList.map s.fields

/-- The committed lines have the fields of `rows`, the line under construction has `fields` and
after them the bytes `rest`. -/
structure Holds (s : Splitter) (rows : List (List (List UInt8))) (fields : List (List UInt8))
    (rest : List UInt8) : Prop where
  stream : s.stream.Holds (rows.flatten ++ fields) rest
  count : s.lines.size = rows.length
  line : ∀ (index : Nat) (hi : index < s.lines.size) (hr : index < rows.length),
    s.lines[index].start = (rows.take index).flatten.length ∧
      s.lines[index].fields = rows[index].length
  lineStart : s.lineStart = rows.flatten.length
  openFields : s.openFields = fields.length

theorem holds_empty (headerLines : Nat) (anyWidth : Bool) :
    ({ headerLines := headerLines, anyWidth := anyWidth } : Splitter).Holds [] [] [] where
  stream := FieldStream.holds_empty
  count := rfl
  line index hi := absurd hi (Nat.not_lt_zero index)
  lineStart := rfl
  openFields := rfl

variable {s : Splitter} {rows : List (List (List UInt8))} {fields : List (List UInt8)}
  {rest : List UInt8}

namespace Holds

theorem enter (h : s.Holds rows fields rest) (state : SplitState) :
    (s.enter state).Holds rows fields rest :=
  ⟨h.stream, h.count, h.line, h.lineStart, h.openFields⟩

theorem push (h : s.Holds rows fields rest) (byte : UInt8) :
    (s.push byte).Holds rows fields (rest ++ [byte]) :=
  ⟨h.stream.push byte, h.count, h.line, h.lineStart, h.openFields⟩

theorem closeField (h : s.Holds rows fields rest) :
    s.closeField.Holds rows (fields ++ [rest]) [] where
  stream := by
    rw [← List.append_assoc]
    exact h.stream.close
  count := h.count
  line := h.line
  lineStart := h.lineStart
  openFields := by simp [Splitter.closeField, h.openFields]

theorem countLine (h : s.Holds rows fields rest) : s.countLine.Holds rows fields rest :=
  ⟨h.stream, h.count, h.line, h.lineStart, h.openFields⟩

theorem hold (h : s.Holds rows fields rest) (blanks : Array UInt8) :
    { s with heldBlanks := blanks }.Holds rows fields rest :=
  ⟨h.stream, h.count, h.line, h.lineStart, h.openFields⟩

/-- Nothing of a discarded line stays, if no bytes of a field were being built. -/
theorem discardLine (h : s.Holds rows fields []) : s.discardLine.Holds rows [] [] where
  stream := by
    rw [List.append_nil, Splitter.discardLine, h.openFields]
    exact h.stream.dropLast
  count := h.count
  line := h.line
  lineStart := h.lineStart
  openFields := rfl

theorem commitLine (h : s.Holds rows fields rest) :
    s.commitLine.Holds (rows ++ [fields]) [] rest where
  stream := by
    rw [List.flatten_append, List.flatten_singleton, List.append_nil]
    exact h.stream
  count := by simp [Splitter.commitLine, h.count]
  line index hi hr := by
    rw [List.length_append, List.length_singleton] at hr
    by_cases hlt : index < rows.length
    · have hs : index < s.lines.size := h.count ▸ hlt
      have hold := h.line index hs hlt
      simpa [Splitter.commitLine, Array.getElem_push, hs, List.getElem_append_left hlt,
        List.take_append_of_le_length (Nat.le_of_lt hlt)] using hold
    · obtain rfl : index = rows.length := by omega
      simp [Splitter.commitLine, Array.getElem_push, h.count, h.lineStart, h.openFields]
  lineStart := by simp [Splitter.commitLine, h.lineStart, h.openFields]
  openFields := rfl

/-- The first field that stays when the first lines are given up. -/
theorem start_of_kept (h : s.Holds rows fields rest) {count : Nat} (hc : count ≤ rows.length) :
    ((s.lines[count]?).map (·.start)).getD s.lineStart = (rows.take count).flatten.length := by
  rcases Nat.lt_or_eq_of_le hc with hlt | rfl
  · have hs : count < s.lines.size := h.count ▸ hlt
    simp [hs, (h.line count hs hlt).1]
  · rw [Array.getElem?_eq_none (Nat.le_of_eq h.count), List.take_length]
    exact h.lineStart

/-- The rows that are given up take nothing of the others with them. -/
theorem dropLines (h : s.Holds rows fields rest) (count : Nat) :
    (s.dropLines count).Holds (rows.drop count) fields rest := by
  have hdrop : rows.drop count = rows.drop (min count s.lines.size) := by
    rw [h.count, List.drop_eq_drop_min]
  unfold Splitter.dropLines
  rw [hdrop]
  have hle : min count s.lines.size ≤ rows.length := h.count ▸ Nat.min_le_right _ _
  generalize min count s.lines.size = count at hle
  dsimp only
  split_ifs with hnone
  · subst hnone
    exact h
  simp only [h.start_of_kept hle]
  have hrows : rows.flatten = (rows.take count).flatten ++ (rows.drop count).flatten := by
    rw [← List.flatten_append, List.take_append_drop]
  refine ⟨?_, by simp [h.count], fun index hi hr => ?_, ?_, h.openFields⟩
  · have hstream := h.stream
    rw [hrows, List.append_assoc] at hstream
    exact hstream.dropFirst
  · rw [List.length_drop] at hr
    have hindex : count + index < rows.length := by omega
    obtain ⟨hstart, hfields⟩ := h.line (count + index) (h.count ▸ hindex) hindex
    have htake : (rows.take (count + index)).flatten =
        (rows.take count).flatten ++ ((rows.drop count).take index).flatten := by
      rw [← List.flatten_append, List.take_add]
    simp [hstart, hfields, htake]
  · rw [h.lineStart, hrows, List.length_append, Nat.add_sub_cancel_left]

theorem getElem?_flatten_row (rows : List (List (List UInt8))) (index : Nat)
    (hr : index < rows.length) (place : Nat) (hp : place < rows[index].length) :
    rows.flatten[(rows.take index).flatten.length + place]? = some rows[index][place] := by
  have hsplit : rows.flatten = (rows.take index).flatten ++
      (rows[index] ++ (rows.drop (index + 1)).flatten) := by
    rw [← List.flatten_cons, ← List.flatten_append, List.getElem_cons_drop,
      List.take_append_drop]
  rw [hsplit, List.getElem?_append_right (Nat.le_add_right _ _), Nat.add_sub_cancel_left,
    List.getElem?_append_left hp, List.getElem?_eq_getElem hp]

theorem rows_eq (h : s.Holds rows fields rest) : s.rows = rows := by
  apply List.ext_getElem
  · simp [Splitter.rows, h.count]
  intro index hi hr
  have hs : index < s.lines.size := by simpa [Splitter.rows] using hi
  obtain ⟨hstart, hfields⟩ := h.line index hs hr
  simp only [Splitter.rows, List.getElem_map, Array.getElem_toList, Splitter.fields, hstart, hfields]
  apply List.ext_getElem
  · simp
  intro place hplace hp
  rw [List.getElem_map, List.getElem_range', Nat.one_mul]
  apply h.stream.field
  have hflat := getElem?_flatten_row rows index hr place hp
  rw [List.getElem?_append_left (List.getElem?_eq_some_iff.1 hflat).1, hflat]

end Holds

end Splitter

end TypedTable.Csv
