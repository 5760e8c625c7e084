import Mathlib.Data.List.Infix
import TypedTable.Proofs.Csv.Contents
import TypedTable.Proofs.Csv.Lockstep
import TypedTable.Proofs.Csv.Room

/-!
# Splitters that gave up lines

A splitter that gave up its first committed lines trails one that has them still: both read on in
step, and keep what they have committed. Only where a short line is filled up to a huge number of
fields does the number of lines given up matter, for the room that is left.
-/

set_option autoImplicit false

namespace TypedTable.Csv

def OpenPart.Allows (p : OpenPart) (fields : List (List UInt8)) (rest : List UInt8) : Prop :=
  (p ≠ .bytes → rest = []) ∧ (p = .nothing → fields = [])

namespace OpenPart.Allows

variable {p q : OpenPart} {fields : List (List UInt8)} {rest : List UInt8}

theorem mono (h : p.Allows fields rest) (hpq : p.rank ≤ q.rank) : q.Allows fields rest := by
  obtain ⟨hrest, hfields⟩ := h
  refine ⟨fun hq => hrest ?_, fun hq => hfields ?_⟩ <;>
    cases p <;> cases q <;> simp_all [OpenPart.rank]

end OpenPart.Allows

namespace Splitter

def record (s : Splitter) (line : Line) : Nat × List (List UInt8) := (line.number, s.fields line)

def records (s : Splitter) : List (Nat × List (List UInt8)) := s.lines.toList.map s.record

structure Keeps (s : Splitter) (records : List (Nat × List (List UInt8)))
    (fields : List (List UInt8)) (rest : List UInt8) : Prop where
  holds : s.Holds (records.map (·.2)) fields rest
  numbers : s.lines.toList.map (·.number) = records.map (·.1)

variable {s t : Splitter} {records : List (Nat × List (List UInt8))}
  {fields : List (List UInt8)} {rest : List UInt8}

namespace Keeps

theorem records_eq (h : s.Keeps records fields rest) : s.records = records := by
  have hnumbers : s.records.map (·.1) = records.map (·.1) := by
    rw [← h.numbers, Splitter.records, List.map_map]
    rfl
  have hrows : s.records.map (·.2) = records.map (·.2) := by
    rw [← h.holds.rows_eq, Splitter.records, List.map_map]
    rfl
  rw [List.zip_of_prod hnumbers hrows, ← List.zip_of_prod rfl rfl]

theorem size (h : s.Keeps records fields rest) : s.lines.size = records.length := by
  rw [h.holds.count, List.length_map]

theorem lastLine (h : s.Keeps records fields rest) :
    s.lines.back?.map (·.fields) = records.getLast?.map (·.2.length) := by
  rw [Array.back?_eq_getElem?, List.getLast?_eq_getElem?, h.size]
  by_cases hr : records.length - 1 < records.length
  · have hs : records.length - 1 < s.lines.size := h.size ▸ hr
    have hfields := (h.holds.line (records.length - 1) hs (by simpa using hr)).2
    rw [Array.getElem?_eq_getElem hs, List.getElem?_eq_getElem hr, Option.map_some, hfields]
    simp
  · obtain rfl : records = [] := List.eq_nil_of_length_eq_zero (by omega)
    rw [Array.getElem?_eq_none (by rw [h.size]; exact Nat.zero_le _)]
    rfl

theorem commitLine (h : s.Keeps records fields rest) :
    s.commitLine.Keeps (records ++ [(s.fileLines + 1, fields)]) [] rest where
  holds := by
    rw [List.map_append]
    exact h.holds.commitLine
  numbers := by simp [Splitter.commitLine, h.numbers]

theorem resize (h : s.Keeps records fields rest) (size : Nat) :
    Keeps { s with stream := s.stream.resize size } records fields rest where
  holds := ⟨⟨h.holds.stream.bytes, h.holds.stream.size, h.holds.stream.start⟩, h.holds.count,
    h.holds.line, h.holds.lineStart, h.holds.openFields⟩
  numbers := h.numbers

theorem dropLines (h : s.Keeps records fields rest) (count : Nat) :
    (s.dropLines count).Keeps (records.drop count) fields rest where
  holds := by
    rw [List.map_drop]
    exact h.holds.dropLines count
  numbers := by
    rw [List.map_drop, ← h.numbers, List.drop_eq_drop_min, List.length_map, Array.length_toList]
    unfold Splitter.dropLines
    dsimp only
    split_ifs with hnone
    · rw [hnone, List.drop_zero]
    · simp only [Array.toList_map, toList_drop, List.map_drop, List.map_map]
      rfl

end Keeps

theorem firstSize_dropLast (stream : FieldStream) (count : Nat) :
    (stream.dropLast count).firstSize = stream.firstSize := by
  unfold FieldStream.dropLast
  split_ifs <;> rfl

theorem firstSize_dropLines (s : Splitter) (count : Nat) :
    (s.dropLines count).stream.firstSize = s.stream.firstSize := by
  unfold Splitter.dropLines
  dsimp only
  split_ifs <;> rfl

/-- Giving up lines changes nothing else but how many headings are still to come. -/
theorem dropLines_others (s : Splitter) (count : Nat) :
    (s.dropLines count).state = s.state ∧ (s.dropLines count).heldBlanks = s.heldBlanks ∧
      (s.dropLines count).fileLines = s.fileLines ∧ (s.dropLines count).warnings = s.warnings ∧
      (s.dropLines count).anyWidth = s.anyWidth ∧
      (s.dropLines count).headerLines = s.headerLines - min count s.lines.size := by
  unfold Splitter.dropLines
  dsimp only
  split_ifs with hnone
  · exact ⟨rfl, rfl, rfl, rfl, rfl, by rw [hnone, Nat.sub_zero]⟩
  · exact ⟨rfl, rfl, rfl, rfl, rfl, rfl⟩

/-- `s` is `t` without its first `k` lines, of which the records begin with `base`. The line before
the one under construction is there if its number of fields matters. The room for fields was trimmed
in `s` only, if it was at all. -/
structure Trails (d : Dialect) (base : List (Nat × List (List UInt8))) (k : Nat) (trimmed : Prop)
    (p : OpenPart) (s t : Splitter) : Prop where
  state : s.state = t.state
  heldBlanks : s.heldBlanks = t.heldBlanks
  fileLines : s.fileLines = t.fileLines
  warnings : s.warnings = t.warnings
  anyWidth : s.anyWidth = t.anyWidth
  headerLines : s.headerLines = t.headerLines - k
  lastLine : k = 0 ∨ k < t.lines.size ∨ t.anyWidth = true ∨ d.expectedFields.isSome
  room : s.stream.firstSize = t.stream.firstSize ∨ trimmed ∧ t.stream.firstSize = 2
  contents : ∃ records fields rest, base <+: records ∧ k ≤ records.length ∧
    p.Allows fields rest ∧ s.Keeps (records.drop k) fields rest ∧ t.Keeps records fields rest
  increasing : (t.lines.toList.map (·.number)).Pairwise (· < ·)
  counted : ∀ line ∈ t.lines, line.number ≤ t.fileLines

/-- A run without its first lines, or with a trimmed table, is not held to a want of room. -/
def RoomExcuse (k : Nat) (trimmed : Prop) (fault : ReadFault) : Prop :=
  (0 < k ∨ trimmed) ∧ fault.isRoomFault = true

theorem not_roomExcuse (fault : ReadFault) : ¬ RoomExcuse 0 False fault :=
  fun h => h.1.elim (Nat.lt_irrefl 0) id

namespace Trails

variable {d : Dialect} {base : List (Nat × List (List UInt8))} {k : Nat} {trimmed : Prop}
  {p q : OpenPart}

theorem loosen (h : Trails d base k trimmed p s t) (hpq : p.rank ≤ q.rank) : Trails d base k trimmed q s t := by
  obtain ⟨records, fields, rest, hbase, hk, hallows, hs, ht⟩ := h.contents
  exact { h with contents := ⟨records, fields, rest, hbase, hk, hallows.mono hpq, hs, ht⟩ }

theorem enter (h : Trails d base k trimmed p s t) (state : SplitState) :
    Trails d base k trimmed p (s.enter state) (t.enter state) := by
  obtain ⟨records, fields, rest, hbase, hk, hallows, hs, ht⟩ := h.contents
  exact { h with
    state := rfl
    contents := ⟨records, fields, rest, hbase, hk, hallows, ⟨hs.holds.enter state, hs.numbers⟩,
      ⟨ht.holds.enter state, ht.numbers⟩⟩ }

theorem push (h : Trails d base k trimmed .bytes s t) (byte : UInt8) :
    Trails d base k trimmed .bytes (s.push byte) (t.push byte) := by
  obtain ⟨records, fields, rest, hbase, hk, -, hs, ht⟩ := h.contents
  exact { h with
    contents := ⟨records, fields, rest ++ [byte], hbase, hk, ⟨by simp, by simp⟩,
      ⟨hs.holds.push byte, hs.numbers⟩, ⟨ht.holds.push byte, ht.numbers⟩⟩ }

theorem closeField (h : Trails d base k trimmed .bytes s t) :
    Trails d base k trimmed .fields s.closeField t.closeField := by
  obtain ⟨records, fields, rest, hbase, hk, -, hs, ht⟩ := h.contents
  exact { h with
    contents := ⟨records, fields ++ [rest], [], hbase, hk, ⟨by simp, by simp⟩,
      ⟨hs.holds.closeField, hs.numbers⟩, ⟨ht.holds.closeField, ht.numbers⟩⟩ }

theorem countLine (h : Trails d base k trimmed p s t) : Trails d base k trimmed p s.countLine t.countLine := by
  obtain ⟨records, fields, rest, hbase, hk, hallows, hs, ht⟩ := h.contents
  exact { h with
    fileLines := congrArg (· + 1) h.fileLines
    contents := ⟨records, fields, rest, hbase, hk, hallows, ⟨hs.holds.countLine, hs.numbers⟩,
      ⟨ht.holds.countLine, ht.numbers⟩⟩
    counted := fun line hl => Nat.le_succ_of_le (h.counted line hl) }

theorem discardLine (h : Trails d base k trimmed .fields s t) :
    Trails d base k trimmed .nothing s.discardLine t.discardLine := by
  obtain ⟨records, fields, rest, hbase, hk, hallows, hs, ht⟩ := h.contents
  obtain rfl : rest = [] := hallows.1 (by simp)
  exact { h with
    room := by
      simp only [Splitter.discardLine, firstSize_dropLast]
      exact h.room
    contents := ⟨records, [], [], hbase, hk, ⟨fun _ => rfl, fun _ => rfl⟩,
      ⟨hs.holds.discardLine, hs.numbers⟩, ⟨ht.holds.discardLine, ht.numbers⟩⟩ }

theorem hold (h : Trails d base k trimmed p s t) (blanks : Array UInt8) :
    Trails d base k trimmed p { s with heldBlanks := blanks } { t with heldBlanks := blanks } := by
  obtain ⟨records, fields, rest, hbase, hk, hallows, hs, ht⟩ := h.contents
  exact { h with
    heldBlanks := rfl
    contents := ⟨records, fields, rest, hbase, hk, hallows, ⟨hs.holds.hold blanks, hs.numbers⟩,
      ⟨ht.holds.hold blanks, ht.numbers⟩⟩ }

theorem warn (h : Trails d base k trimmed p s t) (warning : Warning) :
    Trails d base k trimmed p { s with warnings := s.warnings.push warning }
      { t with warnings := t.warnings.push warning } := by
  obtain ⟨records, fields, rest, hbase, hk, hallows, hs, ht⟩ := h.contents
  exact { h with
    warnings := congrArg (·.push warning) h.warnings
    contents := ⟨records, fields, rest, hbase, hk, hallows, ⟨⟨hs.holds.stream, hs.holds.count,
      hs.holds.line, hs.holds.lineStart, hs.holds.openFields⟩, hs.numbers⟩, ⟨⟨ht.holds.stream,
      ht.holds.count, ht.holds.line, ht.holds.lineStart, ht.holds.openFields⟩, ht.numbers⟩⟩ }

theorem openFields (h : Trails d base k trimmed p s t) : s.openFields = t.openFields := by
  obtain ⟨records, fields, rest, -, -, -, hs, ht⟩ := h.contents
  rw [hs.holds.openFields, ht.holds.openFields]

theorem size (h : Trails d base k trimmed p s t) : k ≤ t.lines.size ∧ s.lines.size = t.lines.size - k := by
  obtain ⟨records, fields, rest, -, hk, -, hs, ht⟩ := h.contents
  rw [hs.size, ht.size, List.length_drop]
  exact ⟨hk, rfl⟩

theorem streamSize (h : Trails d base k trimmed p s t) :
    s.stream.size ≤ t.stream.size ∧ (k = 0 → s.stream.size = t.stream.size) := by
  obtain ⟨records, fields, rest, -, hk, -, hs, ht⟩ := h.contents
  have hsize := hs.holds.stream.size
  rw [FieldStream.size, FieldStream.size, hsize, ht.holds.stream.size]
  constructor
  · have hsplit : records.map (·.2) =
        (records.take k).map (·.2) ++ (records.drop k).map (·.2) := by
      rw [← List.map_append, List.take_append_drop]
    rw [hsplit, List.flatten_append, List.append_assoc]
    exact (List.suffix_append _ _).length_le
  · rintro rfl
    rw [List.drop_zero]

theorem requiredFields (h : Trails d base k trimmed p s t) : s.requiredFields d = t.requiredFields d := by
  obtain ⟨hk, hsize⟩ := h.size
  have hheader : s.headerLines ≤ s.lines.size ↔ t.headerLines ≤ t.lines.size := by
    rw [h.headerLines, hsize]
    omega
  have hlast (hlast : k = 0 ∨ k < t.lines.size) :
      s.lines.back?.map (·.fields) = t.lines.back?.map (·.fields) := by
    obtain ⟨records, fields, rest, -, -, -, hs, ht⟩ := h.contents
    rw [hs.lastLine, ht.lastLine, List.getLast?_drop]
    rw [ht.size] at hlast
    rcases hlast with rfl | hlt
    · cases records <;> rfl
    · rw [if_neg (Nat.not_le.2 hlt)]
  unfold Splitter.requiredFields
  simp only [hheader, h.anyWidth]
  split_ifs with hcond
  · rcases h.lastLine with hzero | hlt | hany | hset
    · rw [hlast (.inl hzero)]
    · rw [hlast (.inr hlt)]
    · simp [hany] at hcond
    · obtain ⟨expected, he⟩ := Option.isSome_iff_exists.1 hset
      rw [he]
      rfl
  · rfl

theorem closeFields (h : Trails d base k trimmed .fields s t) (count : Nat) :
    Trails d base k trimmed .fields (s.closeFields count) (t.closeFields count) := by
  induction count generalizing s t with
  | zero => exact h
  | succ count ih => exact ih (h.loosen (by decide)).closeField

theorem commitLine (h : Trails d base k trimmed p s t) (hp : p ≠ .bytes) :
    Trails d base k trimmed .nothing s.commitLine t.commitLine := by
  obtain ⟨records, fields, rest, hbase, hk, hallows, hs, ht⟩ := h.contents
  obtain rfl : rest = [] := hallows.1 hp
  refine { h with
    fileLines := congrArg (· + 1) h.fileLines
    lastLine := ?_
    contents := ⟨records ++ [(t.fileLines + 1, fields)], [], [],
      hbase.trans (List.prefix_append _ _), by simp; omega, ⟨fun _ => rfl, fun _ => rfl⟩, ?_,
      ht.commitLine⟩
    increasing := ?_
    counted := fun line hl => ?_ }
  · have hgrows : t.lines.size < t.commitLine.lines.size := by simp [Splitter.commitLine]
    rcases h.lastLine with hzero | hlt | hset
    · exact .inl hzero
    · exact .inr (.inl (Nat.lt_trans hlt hgrows))
    · exact .inr (.inr hset)
  · rw [List.drop_append_of_le_length hk, ← h.fileLines]
    exact hs.commitLine
  · have hall : ∀ line ∈ t.lines.toList, line.number < t.fileLines + 1 := fun line hl =>
      Nat.lt_succ_of_le (h.counted line (Array.mem_toList_iff.1 hl))
    simpa [Splitter.commitLine, List.pairwise_append, h.increasing] using hall
  · rcases Array.mem_push.1 hl with hl | rfl
    · exact Nat.le_succ_of_le (h.counted line hl)
    · exact Nat.le_refl _

theorem padLine (h : Trails d base k trimmed p s t) (hb : p ≠ .bytes)
    (hp : p.rank ≤ s.state.openPart.rank) (missing : Nat) :
    Agree (Trails d base k trimmed) (RoomExcuse k trimmed) (Trails d base k trimmed .fields) (s.padLine missing)
      (t.padLine missing) := by
  have hfields : Trails d base k trimmed .fields s t := h.loosen (by cases p <;> simp_all [OpenPart.rank])
  unfold Splitter.padLine
  split_ifs
  · exact .ok hfields
  cases ht : t.stream.checkRoom missing with
  | ok =>
    rw [FieldStream.checkRoom_of_larger h.streamSize.1 (h.room.imp_right And.right) ht]
    exact .ok (hfields.closeFields missing)
  | error fault =>
    have hfault := FieldStream.checkRoom_fault ht
    by_cases hexcuse : 0 < k ∨ trimmed
    · exact .excused ⟨hexcuse, hfault⟩
    · obtain ⟨hk, huntrimmed⟩ := not_or.1 hexcuse
      have hfirst := h.room.resolve_right fun hroom => huntrimmed hroom.1
      rw [FieldStream.checkRoom_congr (h.streamSize.2 (Nat.eq_zero_of_not_pos hk)) hfirst, ht]
      refine .error rfl (h.loosen ?_)
      cases fault <;> first | exact hp | cases hfault

theorem rejectLine (h : Trails d base k trimmed .fields s t) (expected : Nat) :
    Agree (Trails d base k trimmed) (RoomExcuse k trimmed) (Trails d base k trimmed .nothing) (s.rejectLine d expected)
      (t.rejectLine d expected) := by
  have hleft := h.countLine.discardLine
  unfold Splitter.rejectLine
  cases d.onBadLines with
  | error => exact .error (by dsimp only; rw [hleft.fileLines, h.openFields]) hleft
  | warn =>
    have hwarning : (⟨s.countLine.discardLine.fileLines, expected, s.openFields⟩ : Warning) =
        ⟨t.countLine.discardLine.fileLines, expected, t.openFields⟩ := by
      rw [hleft.fileLines, h.openFields]
    dsimp only
    rw [hwarning]
    exact .ok (hleft.warn _)
  | skip => exact .ok hleft

theorem endLine (h : Trails d base k trimmed p s t) (hb : p ≠ .bytes)
    (hp : p.rank ≤ s.state.openPart.rank) :
    Agree (Trails d base k trimmed) (RoomExcuse k trimmed) (Trails d base k trimmed .nothing) (s.endLine d)
      (t.endLine d) := by
  have hfields : Trails d base k trimmed .fields s t := h.loosen (by cases p <;> simp_all [OpenPart.rank])
  unfold Splitter.endLine
  rw [← h.state, h.requiredFields]
  split_ifs
  · exact .ok hfields.countLine.discardLine
  cases t.requiredFields d with
  | none => exact .ok (h.commitLine hb)
  | some expected =>
    dsimp only
    rw [h.openFields]
    split_ifs
    · exact hfields.rejectLine expected
    · exact (h.padLine hb hp _).bind fun _ _ h => .ok (h.commitLine (by decide))

theorem lockstep (d : Dialect) (base : List (Nat × List (List UInt8))) (k : Nat) (trimmed : Prop) :
    Lockstep d (RoomExcuse k trimmed) (Trails d base k trimmed) where
  state := Trails.state
  heldBlanks := Trails.heldBlanks
  fileLines := Trails.fileLines
  loosen := Trails.loosen
  enter state h := h.enter state
  push byte h := h.push byte
  closeField := Trails.closeField
  countLine := Trails.countLine
  discardLine := Trails.discardLine
  hold blanks h := h.hold blanks
  endLine := Trails.endLine

theorem start (d : Dialect) (trimmed : Prop) (headerLines : Nat) (anyWidth : Bool) :
    Trails d [] 0 trimmed .nothing { headerLines := headerLines, anyWidth := anyWidth }
      { headerLines := headerLines, anyWidth := anyWidth } where
  state := rfl
  heldBlanks := rfl
  fileLines := rfl
  warnings := rfl
  anyWidth := rfl
  headerLines := rfl
  lastLine := .inl rfl
  room := .inl rfl
  contents := ⟨[], [], [], List.nil_prefix, Nat.le_refl 0, ⟨fun _ => rfl, fun _ => rfl⟩,
    ⟨holds_empty headerLines anyWidth, rfl⟩, ⟨holds_empty headerLines anyWidth, rfl⟩⟩
  increasing := List.Pairwise.nil
  counted line hl := by simp at hl

theorem records_eq (h : Trails d base k trimmed p s t) :
    base <+: t.records ∧ s.records = t.records.drop k := by
  obtain ⟨records, fields, rest, hbase, -, -, hs, ht⟩ := h.contents
  rw [hs.records_eq, ht.records_eq]
  exact ⟨hbase, rfl⟩

theorem rebase (h : Trails d base k trimmed p s t) : Trails d t.records k trimmed p s t := by
  obtain ⟨records, fields, rest, -, hk, hallows, hs, ht⟩ := h.contents
  exact { h with
    contents := ⟨records, fields, rest, ht.records_eq ▸ List.prefix_rfl, hk, hallows, hs, ht⟩ }

theorem dropLines (h : Trails d base k trimmed p s t) (count : Nat)
    (hlast : count < s.lines.size ∨ t.anyWidth = true ∨ d.expectedFields.isSome) :
    Trails d base (k + min count s.lines.size) trimmed p (s.dropLines count) t := by
  obtain ⟨hk, hsize⟩ := h.size
  obtain ⟨hstate, hblanks, hfile, hwarnings, hany, hheader⟩ := dropLines_others s count
  obtain ⟨records, fields, rest, hbase, -, hallows, hs, ht⟩ := h.contents
  have hkept := hs.dropLines count
  rw [List.drop_drop] at hkept
  refine { h with
    state := hstate.trans h.state
    heldBlanks := hblanks.trans h.heldBlanks
    fileLines := hfile.trans h.fileLines
    warnings := hwarnings.trans h.warnings
    anyWidth := hany.trans h.anyWidth
    headerLines := by rw [hheader, h.headerLines]; omega
    lastLine := ?_
    room := by rw [firstSize_dropLines]; exact h.room
    contents := ⟨records, fields, rest, hbase, ?_, hallows, ?_, ht⟩ }
  · rcases hlast with hlt | hset
    · exact .inr (.inl (by omega))
    · exact .inr (.inr hset)
  · rw [← ht.size]
    omega
  · have hcut : records.drop (k + min count s.lines.size) = records.drop (k + count) := by
      rw [hsize, ht.size, ← List.drop_drop, ← List.drop_drop, ← List.length_drop,
        ← List.drop_eq_drop_min]
    rw [hcut]
    exact hkept

theorem dropBoth (h : Trails d base 0 trimmed p s t) (count : Nat) :
    Trails d (base.drop count) 0 trimmed p (s.dropLines count) (t.dropLines count) := by
  obtain ⟨hstate, hblanks, hfile, hwarnings, hany, hheader⟩ := dropLines_others s count
  obtain ⟨hstate', hblanks', hfile', hwarnings', hany', hheader'⟩ := dropLines_others t count
  have hsize : s.lines.size = t.lines.size := h.size.2
  obtain ⟨records, fields, rest, hbase, -, hallows, hs, ht⟩ := h.contents
  have hkept := ht.dropLines count
  have hnumbers : (t.dropLines count).lines.toList.map (·.number) =
      (t.lines.toList.map (·.number)).drop count := by
    rw [hkept.numbers, ht.numbers, List.map_drop]
  exact
    { state := (hstate.trans h.state).trans hstate'.symm
      heldBlanks := (hblanks.trans h.heldBlanks).trans hblanks'.symm
      fileLines := (hfile.trans h.fileLines).trans hfile'.symm
      warnings := (hwarnings.trans h.warnings).trans hwarnings'.symm
      anyWidth := (hany.trans h.anyWidth).trans hany'.symm
      headerLines := by rw [hheader, hheader', h.headerLines, hsize]; rfl
      lastLine := .inl rfl
      room := by rw [firstSize_dropLines, firstSize_dropLines]; exact h.room
      contents := ⟨records.drop count, fields, rest, List.IsPrefix.drop hbase count, Nat.zero_le _,
        hallows, hs.dropLines count, hkept⟩
      increasing := hnumbers ▸ h.increasing.drop
      counted := fun line hl => by
        have hmem : line.number ∈ (t.lines.toList.map (·.number)).drop count :=
          hnumbers ▸ List.mem_map_of_mem (Array.mem_toList_iff.2 hl)
        obtain ⟨old, hold, hnumber⟩ := List.mem_map.1 (List.mem_of_mem_drop hmem)
        rw [hfile', ← hnumber]
        exact h.counted old (Array.mem_toList_iff.1 hold) }

theorem self (h : Trails d base k trimmed p s t) : Trails d base 0 False p t t := by
  obtain ⟨records, fields, rest, hbase, -, hallows, -, ht⟩ := h.contents
  exact ⟨rfl, rfl, rfl, rfl, rfl, rfl, .inl rfl, .inl rfl,
    ⟨records, fields, rest, hbase, Nat.zero_le _, hallows, ht, ht⟩, h.increasing, h.counted⟩

/-- The table is trimmed where it trails one that never was. -/
theorem resize (h : Trails d base k trimmed p s t) (hfirst : t.stream.firstSize = 2) (size : Nat) :
    Trails d base k True p { s with stream := s.stream.resize size } t := by
  obtain ⟨records, fields, rest, hbase, hk, hallows, hs, ht⟩ := h.contents
  exact { h with
    room := .inr ⟨trivial, hfirst⟩
    contents := ⟨records, fields, rest, hbase, hk, hallows, hs.resize size, ht⟩ }

theorem resizeBoth (h : Trails d base k trimmed p s t) (size : Nat) :
    Trails d base k trimmed p { s with stream := s.stream.resize size }
      { t with stream := t.stream.resize size } := by
  obtain ⟨records, fields, rest, hbase, hk, hallows, hs, ht⟩ := h.contents
  exact { h with
    room := .inl rfl
    contents := ⟨records, fields, rest, hbase, hk, hallows, hs.resize size, ht.resize size⟩ }

end Trails

end Splitter

end TypedTable.Csv
