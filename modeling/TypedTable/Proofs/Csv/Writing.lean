import TypedTable.Csv.Dialect

/-!
# Writing rows

Rows are written field by field, each field between quotes or as it is, and every row with a line
ending of its own. In a dialect that such text can be read back from, every special byte has one
role.
-/

set_option autoImplicit false

namespace TypedTable.Csv

structure WrittenField where
  bytes : List UInt8
  quoted : Bool
deriving DecidableEq, Repr

inductive LineEnding where
  | feed
  | returnAndFeed
  | loneReturn
deriving DecidableEq, Repr

def LineEnding.bytes : LineEnding → List UInt8
  | .feed => [10]
  | .returnAndFeed => [13, 10]
  | .loneReturn => [13]

structure WrittenRow where
  fields : List WrittenField
  /-- How the row ends if the dialect has no terminator of its own. -/
  ending : LineEnding
deriving DecidableEq, Repr

def WrittenRow.values (row : WrittenRow) : List (List UInt8) := row.fields.map (·.bytes)

namespace Dialect

def endingBytes (d : Dialect) : List UInt8 :=
  match d.lineTerminator with
  | some terminator => [terminator]
  | none => [10, 13]

def specialBytes (d : Dialect) : List UInt8 :=
  d.delimiter :: d.quoteChar ::
    (d.escapeChar.toList ++ (d.commentChar.toList ++ d.endingBytes))

def writeByte (d : Dialect) (byte : UInt8) : List UInt8 :=
  if byte = d.quoteChar ∨ d.escapeChar = some byte then [byte, byte] else [byte]

def writeField (d : Dialect) (field : WrittenField) : List UInt8 :=
  if field.quoted then d.quoteChar :: (field.bytes.flatMap d.writeByte ++ [d.quoteChar])
  else field.bytes

def writeFields (d : Dialect) : List WrittenField → List UInt8
  | [] => []
  | [field] => d.writeField field
  | field :: next :: later => d.writeField field ++ d.delimiter :: d.writeFields (next :: later)

def writeEnding (d : Dialect) (ending : LineEnding) : List UInt8 :=
  match d.lineTerminator with
  | some terminator => [terminator]
  | none => ending.bytes

def writeRow (d : Dialect) (row : WrittenRow) : List UInt8 :=
  d.writeFields row.fields ++ d.writeEnding row.ending

def write (d : Dialect) (rows : List WrittenRow) : List UInt8 := rows.flatMap d.writeRow

/-- Text that the dialect's rows can be written in and read back from. -/
structure Writable (d : Dialect) : Prop where
  quotes : d.quoting ≠ .none
  doubles : d.doubleQuote = true
  delimited : d.blankDelimited = false
  initialSpace : d.skipInitialSpace = false
  emptyLines : d.skipEmptyLines = false
  skippedLines : d.skippedLines.lines = []
  skippedFirstLines : d.skippedFirstLines = 0
  distinct : d.specialBytes.Nodup

end Dialect

def WrittenField.Allowed (d : Dialect) (field : WrittenField) : Prop :=
  field.quoted = false → ∀ byte ∈ field.bytes, byte ∉ d.specialBytes

structure WrittenRow.Allowed (d : Dialect) (width : Nat) (row : WrittenRow) : Prop where
  width : row.fields.length = width
  fields : ∀ field ∈ row.fields, field.Allowed d
  filled : row.fields ≠ [⟨[], false⟩]

namespace Dialect.Writable

variable {d : Dialect} {c : UInt8}

theorem isDelimiter_eq (hd : d.Writable) (c : UInt8) : d.isDelimiter c = (c == d.delimiter) := by
  simp [isDelimiter, hd.delimited]

theorem isQuote_eq (hd : d.Writable) (c : UInt8) : d.isQuote c = (c == d.quoteChar) := by
  simp [isQuote, hd.quotes]

theorem isInitialSpace_eq (hd : d.Writable) (c : UInt8) : d.isInitialSpace c = false := by
  simp [isInitialSpace, hd.initialSpace]

theorem skipsLine_eq (hd : d.Writable) (line : Nat) : d.skipsLine line = false := by
  simp [skipsLine, LineSet.contains, hd.skippedLines, hd.skippedFirstLines]

theorem isEscape_iff : d.isEscape c = true ↔ c ∈ d.escapeChar.toList := by
  simp [isEscape]

theorem isComment_iff : d.isComment c = true ↔ c ∈ d.commentChar.toList := by
  simp [isComment]

theorem endsLine_iff : d.isTerminator c = true ∨ d.isReturn c = true ↔ c ∈ d.endingBytes := by
  unfold isTerminator isReturn endingBytes
  cases d.lineTerminator <;> simp

theorem not_terminator_of_not_ending (h : c ∉ d.endingBytes) : d.isTerminator c = false :=
  Bool.eq_false_iff.2 fun ht => h (endsLine_iff.1 (.inl ht))

theorem not_return_of_not_ending (h : c ∉ d.endingBytes) : d.isReturn c = false :=
  Bool.eq_false_iff.2 fun hr => h (endsLine_iff.1 (.inr hr))

theorem not_escape (h : c ∉ d.escapeChar.toList) : d.isEscape c = false :=
  Bool.eq_false_iff.2 fun he => h (isEscape_iff.1 he)

theorem not_comment (h : c ∉ d.commentChar.toList) : d.isComment c = false :=
  Bool.eq_false_iff.2 fun hc => h (isComment_iff.1 hc)

/-- The roles of two special bytes are never taken by one. -/
theorem distinct_roles (hd : d.Writable) :
    d.delimiter ≠ d.quoteChar ∧
    (d.delimiter ∉ d.escapeChar.toList ∧ d.delimiter ∉ d.commentChar.toList ∧
      d.delimiter ∉ d.endingBytes) ∧
    (d.quoteChar ∉ d.escapeChar.toList ∧ d.quoteChar ∉ d.commentChar.toList ∧
      d.quoteChar ∉ d.endingBytes) ∧
    (∀ byte ∈ d.endingBytes, byte ∉ d.escapeChar.toList ∧ byte ∉ d.commentChar.toList) := by
  have h := hd.distinct
  simp only [specialBytes, List.nodup_cons, List.nodup_append, List.mem_cons, List.mem_append,
    not_or] at h
  obtain ⟨⟨hdq, hde, hdc, hdt⟩, ⟨hqe, hqc, hqt⟩, -, ⟨-, -, hct⟩, he⟩ := h
  exact ⟨hdq, ⟨hde, hdc, hdt⟩, ⟨hqe, hqc, hqt⟩, fun byte hb =>
    ⟨fun hm => he byte hm byte (.inr hb) rfl, fun hm => hct byte hm byte hb rfl⟩⟩

theorem plain (hd : d.Writable) (hc : c ∉ d.specialBytes) :
    d.isTerminator c = false ∧ d.isReturn c = false ∧ d.isQuote c = false ∧
      d.isEscape c = false ∧ d.isDelimiter c = false ∧ d.isComment c = false := by
  simp only [specialBytes, List.mem_cons, List.mem_append, not_or] at hc
  obtain ⟨hdel, hquote, hescape, hcomment, hending⟩ := hc
  exact ⟨not_terminator_of_not_ending hending, not_return_of_not_ending hending,
    by simp [hd.isQuote_eq, hquote], not_escape hescape, by simp [hd.isDelimiter_eq, hdel],
    not_comment hcomment⟩

theorem delimiter_roles (hd : d.Writable) :
    d.isTerminator d.delimiter = false ∧ d.isReturn d.delimiter = false ∧
      d.isQuote d.delimiter = false ∧ d.isEscape d.delimiter = false ∧
      d.isDelimiter d.delimiter = true ∧ d.isComment d.delimiter = false := by
  obtain ⟨hdq, ⟨hescape, hcomment, hending⟩, -, -⟩ := hd.distinct_roles
  exact ⟨not_terminator_of_not_ending hending, not_return_of_not_ending hending,
    by simp [hd.isQuote_eq, hdq], not_escape hescape, by simp [hd.isDelimiter_eq],
    not_comment hcomment⟩

theorem quote_roles (hd : d.Writable) :
    d.isTerminator d.quoteChar = false ∧ d.isReturn d.quoteChar = false ∧
      d.isQuote d.quoteChar = true ∧ d.isEscape d.quoteChar = false ∧
      d.isDelimiter d.quoteChar = false ∧ d.isComment d.quoteChar = false := by
  obtain ⟨hdq, -, ⟨hescape, hcomment, hending⟩, -⟩ := hd.distinct_roles
  exact ⟨not_terminator_of_not_ending hending, not_return_of_not_ending hending,
    by simp [hd.isQuote_eq], not_escape hescape, by simp [hd.isDelimiter_eq, hdq.symm],
    not_comment hcomment⟩

theorem ending_roles (hd : d.Writable) (hc : c ∈ d.endingBytes) :
    d.isQuote c = false ∧ d.isDelimiter c = false := by
  obtain ⟨-, ⟨-, -, hdelimiter⟩, ⟨-, -, hquote⟩, -⟩ := hd.distinct_roles
  constructor
  · rw [hd.isQuote_eq]
    exact beq_eq_false_iff_ne.2 fun h => hquote (h ▸ hc)
  · rw [hd.isDelimiter_eq]
    exact beq_eq_false_iff_ne.2 fun h => hdelimiter (h ▸ hc)

end Dialect.Writable

end TypedTable.Csv
