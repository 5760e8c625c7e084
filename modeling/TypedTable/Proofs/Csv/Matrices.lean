import Mathlib.Data.List.Forall2
import TypedTable.Csv.Matrix
import TypedTable.Proofs.Outcome

/-!
# What a matrix is made of

A matrix whose entries must all be there has the values of its fields, row by row, and succeeds if
every field has one. In either order a cell is where its offset says.
-/

set_option autoImplicit false

namespace TypedTable.Csv

/-- A run whose steps succeed just with the image of something related to what they are given. -/
theorem mapM_eq_ok_iff_forall₂ {ε α β γ : Type} {f : α → Except ε β} {R : α → γ → Prop} {g : γ → β}
    (h : ∀ a b, f a = .ok b ↔ ∃ c, R a c ∧ b = g c) {as : List α} {bs : List β} :
    as.mapM f = .ok bs ↔ ∃ cs, List.Forall₂ R as cs ∧ bs = cs.map g := by
  induction as generalizing bs with
  | nil =>
    constructor
    · intro hok
      cases hok
      exact ⟨[], .nil, rfl⟩
    · rintro ⟨cs, hcs, rfl⟩
      cases hcs
      rfl
  | cons a as ih =>
    rw [List.mapM_cons, bind_eq_ok_iff]
    constructor
    · rintro ⟨b, hb, hok⟩
      obtain ⟨rest, hrest, hok⟩ := bind_eq_ok_iff.1 hok
      obtain ⟨c, hc, rfl⟩ := (h a b).1 hb
      obtain ⟨cs, hcs, rfl⟩ := ih.1 hrest
      cases hok
      exact ⟨c :: cs, .cons hc hcs, rfl⟩
    · rintro ⟨cs, hcs, rfl⟩
      cases hcs with
      | cons hc hcs =>
        exact ⟨_, (h a _).2 ⟨_, hc, rfl⟩, bind_eq_ok_iff.2 ⟨_, ih.2 ⟨_, hcs, rfl⟩, rfl⟩⟩

def Field.Has (d : Dialect) (type : FieldType) (field : List UInt8) (value : type.Carrier) : Prop :=
  Field.value? d type field = some value

namespace Matrix

variable {d : Dialect} {type : FieldType}

def dataLines (plan : MatrixPlan) (s : Splitter) : List Line :=
  (usableLines plan.skipFooter s).drop plan.headerLines

def dataFields (columns : Option (List Nat)) (s : Splitter) (lines : List Line) :
    List (List (List UInt8)) :=
  lines.map fun line =>
    (sourceColumns columns lines).map fun col => s.stream.field (fieldIndex line col)

def Reads (d : Dialect) (type : FieldType) (fields : List (List (List UInt8)))
    (values : List (List type.Carrier)) : Prop :=
  List.Forall₂ (List.Forall₂ (Field.Has d type)) fields values

theorem entry_eq_ok_iff {line index : Nat} {field : List UInt8}
    {found : type.Carrier × Option Remark} :
    entry d type false line field index = .ok found ↔
      ∃ value, Field.Has d type field value ∧ found = (value, none) := by
  rw [entry]
  simp only [Field.Has, Field.value?]
  cases Field.convert d type field with
  | ok converted => simp [eq_comm]
  | error fault => simp

theorem row_eq_ok_iff {s : Splitter} {sources : List Nat} {line : Line}
    {found : List (type.Carrier × Option Remark)} :
    row d type false s sources line = .ok found ↔
      ∃ values, List.Forall₂ (Field.Has d type)
          (sources.map fun col => s.stream.field (fieldIndex line col)) values ∧
        found = values.map (·, none) := by
  rw [row, mapM_eq_ok_iff_forall₂ fun source _ => entry_eq_ok_iff]
  have hsources : (sources.zipIdx.map Prod.fst).map (fun col => s.stream.field (fieldIndex line col)) =
      sources.map fun col => s.stream.field (fieldIndex line col) := by
    rw [List.zipIdx_map_fst]
  rw [← hsources, List.map_map]
  simp only [List.forall₂_map_left_iff, Function.comp_apply]

theorem remarks_of_values (values : List (List type.Carrier)) :
    (values.map (·.map (·, (none : Option Remark)))).flatten.filterMap (·.2) = [] := by
  rw [List.filterMap_eq_nil_iff]
  intro found hfound
  obtain ⟨row, hrow, hmem⟩ := List.mem_flatten.1 hfound
  obtain ⟨entries, -, rfl⟩ := List.mem_map.1 hrow
  obtain ⟨value, -, rfl⟩ := List.mem_map.1 hmem
  rfl

theorem entries_of_values (values : List (List type.Carrier)) :
    (values.map (·.map (·, (none : Option Remark)))).flatten.map (·.1) = values.flatten := by
  have hrow (row : List type.Carrier) :
      (row.map (·, (none : Option Remark))).map (·.1) = row := by
    rw [List.map_map]
    exact List.map_id row
  rw [List.map_flatten, List.map_map]
  exact congrArg List.flatten (List.map_id'' hrow values)

def ofRows (type : FieldType) (order : Order) (rows cols : Nat)
    (values : List (List type.Carrier)) : Matrix type :=
  { data := arrange order rows cols type.missing values.flatten.toArray
    rows := rows
    cols := cols
    status := .success
    remarks := [] }

/-- A matrix with data and without missing entries has the values of its fields. -/
theorem ofLines_eq_ok_iff {plan : MatrixPlan} {s : Splitter} {matrix : Matrix type}
    (hlines : dataLines plan s ≠ []) (hwarn : plan.warnForMissing = false) :
    ofLines d type plan s = .ok matrix ↔
      checkWidth plan.columns (neededFields plan.columns (dataLines plan s)) (dataLines plan s) = .ok () ∧
        ∃ values, Reads d type (dataFields plan.columns s (dataLines plan s)) values ∧
          matrix = ofRows type plan.order (dataLines plan s).length
            (sourceColumns plan.columns (dataLines plan s)).length values := by
  have hempty : ¬ (dataLines plan s).isEmpty = true := by simpa using hlines
  have hof : ofLines d type plan s = _ := if_neg hempty
  have hrows (found : List (List (type.Carrier × Option Remark))) :
      (dataLines plan s).mapM (row d type false s (sourceColumns plan.columns (dataLines plan s))) =
          .ok found ↔
        ∃ values, Reads d type (dataFields plan.columns s (dataLines plan s)) values ∧
          found = values.map (·.map (·, none)) := by
    rw [mapM_eq_ok_iff_forall₂ fun line _ => row_eq_ok_iff]
    simp only [Reads, dataFields]
    constructor
    · rintro ⟨values, hvalues, rfl⟩
      exact ⟨values, List.forall₂_map_left_iff.2 hvalues, rfl⟩
    · rintro ⟨values, hvalues, rfl⟩
      exact ⟨values, List.forall₂_map_left_iff.1 hvalues, rfl⟩
  rw [hof, hwarn]
  constructor
  · intro h
    obtain ⟨⟨⟩, hcheck, h⟩ := bind_eq_ok_iff.1 h
    obtain ⟨rows, hok, h⟩ := bind_eq_ok_iff.1 h
    obtain ⟨values, hvalues, rfl⟩ := (hrows rows).1 hok
    refine ⟨hcheck, values, hvalues, ?_⟩
    have hmatrix := Except.ok.inj h
    rw [← hmatrix, remarks_of_values, entries_of_values]
    rfl
  · rintro ⟨hcheck, values, hvalues, rfl⟩
    refine bind_eq_ok_iff.2 ⟨(), hcheck, ?_⟩
    refine bind_eq_ok_iff.2 ⟨_, (hrows _).2 ⟨values, hvalues, rfl⟩, ?_⟩
    dsimp only
    rw [remarks_of_values, entries_of_values]
    rfl

def CellAt {α : Type} (values : List (List α)) (row col : Nat) (value : α) : Prop :=
  ∃ entries, values[row]? = some entries ∧ entries[col]? = some value

theorem length_flatten {α : Type} {values : List (List α)} {width : Nat}
    (hw : ∀ entries ∈ values, entries.length = width) :
    values.flatten.length = values.length * width := by
  rw [List.length_flatten, List.map_congr_left hw, List.map_const', List.sum_replicate_nat]

theorem getElem?_flatten {α : Type} {values : List (List α)} {width row col : Nat} {value : α}
    (hw : ∀ entries ∈ values, entries.length = width) (hc : CellAt values row col value) :
    values.flatten[row * width + col]? = some value := by
  obtain ⟨found, hrow, hcol⟩ := hc
  induction values generalizing row with
  | nil => cases hrow
  | cons entries later ih =>
    have hwidth : entries.length = width := hw entries (by simp)
    rw [List.flatten_cons]
    cases row with
    | zero =>
      obtain rfl : entries = found := by simpa using hrow
      have hlt := (List.getElem?_eq_some_iff.1 hcol).1
      rw [Nat.zero_mul, Nat.zero_add, List.getElem?_append_left hlt, hcol]
    | succ row =>
      have hplace : (row + 1) * width + col = entries.length + (row * width + col) := by
        rw [Nat.succ_mul, hwidth]
        omega
      rw [hplace, List.getElem?_append_right (Nat.le_add_right _ _), Nat.add_sub_cancel_left]
      exact ih (fun entries h => hw entries (by simp [h])) hrow

theorem size_arrange {α : Type} {values : List (List α)} {width : Nat} (order : Order) (missing : α)
    (hw : ∀ entries ∈ values, entries.length = width) :
    (arrange order values.length width missing values.flatten.toArray).size =
      values.length * width := by
  cases order with
  | rowMajor => exact length_flatten hw
  | columnMajor => simp [arrange]

theorem getElem?_arrange {α : Type} {values : List (List α)} {width row col : Nat} {value : α}
    (order : Order) (missing : α) (hw : ∀ entries ∈ values, entries.length = width)
    (hc : CellAt values row col value) :
    (arrange order values.length width missing
      values.flatten.toArray)[order.offset row col values.length width]? = some value := by
  have hcell := getElem?_flatten hw hc
  cases order with
  | rowMajor => simpa [arrange, Order.offset] using hcell
  | columnMajor =>
    obtain ⟨entries, hrow, hcol⟩ := hc
    have hr := (List.getElem?_eq_some_iff.1 hrow).1
    have hcols : col < width := by
      rw [← hw entries (List.mem_of_getElem? hrow)]
      exact (List.getElem?_eq_some_iff.1 hcol).1
    have hplace := Order.columnMajor.offset_lt hr hcols
    have hmod : (col * values.length + row) % values.length = row := by
      rw [Nat.mul_add_mod_self_right, Nat.mod_eq_of_lt hr]
    have hdiv : (col * values.length + row) / values.length = col := by
      rw [Nat.mul_comm, Nat.mul_add_div (by omega), Nat.div_eq_of_lt hr, Nat.add_zero]
    simp only [arrange, Order.offset] at hplace ⊢
    simp [hplace, hmod, hdiv, hcell]

/-- The rows that are read are as long as those of the fields. -/
theorem Reads.length {fields : List (List (List UInt8))} {values : List (List type.Carrier)}
    (h : Reads d type fields values) : values.length = fields.length :=
  (List.Forall₂.length_eq h).symm

theorem Reads.width {fields : List (List (List UInt8))} {values : List (List type.Carrier)}
    (h : Reads d type fields values) {width : Nat} (hw : ∀ row ∈ fields, row.length = width) :
    ∀ row ∈ values, row.length = width := by
  induction h with
  | nil => simp
  | cons hrow _ ih =>
    intro row hmem
    rcases List.mem_cons.1 hmem with rfl | hmem
    · rw [← hrow.length_eq, hw _ (by simp)]
    · exact ih (fun row h => hw row (by simp [h])) row hmem

theorem dataFields_width (columns : Option (List Nat)) (s : Splitter) (lines : List Line) :
    ∀ row ∈ dataFields columns s lines, row.length = (sourceColumns columns lines).length := by
  intro row hrow
  obtain ⟨line, -, rfl⟩ := List.mem_map.1 hrow
  exact List.length_map _

section Even

variable {lines : List Line} {width : Nat} {s : Splitter}

theorem foldr_fields (hw : ∀ line ∈ lines, line.fields = width) :
    lines.foldr (fun line fields => line.fields + fields) 0 = lines.length * width := by
  induction lines with
  | nil => simp
  | cons line later ih =>
    rw [List.foldr_cons, ih fun line h => hw line (by simp [h]), hw line (by simp),
      List.length_cons, Nat.succ_mul, Nat.add_comm]

theorem fieldsPerLine_even (hn : lines ≠ []) (hw : ∀ line ∈ lines, line.fields = width) :
    fieldsPerLine lines = width := by
  rw [fieldsPerLine, foldr_fields hw, Nat.mul_div_cancel_left _ (List.length_pos_iff.2 hn)]

theorem sourceColumns_even (hn : lines ≠ []) (hw : ∀ line ∈ lines, line.fields = width) :
    sourceColumns none lines = List.range width := by
  rw [sourceColumns, fieldsPerLine_even hn hw, Option.getD_none]

theorem neededFields_even (hn : lines ≠ []) (hw : ∀ line ∈ lines, line.fields = width) :
    neededFields none lines = width :=
  fieldsPerLine_even hn hw

theorem fieldIndex_of_lt {line : Line} {col : Nat} (h : col < line.fields) :
    fieldIndex line col = line.start + col :=
  if_pos h

theorem checkWidth_even (hw : ∀ line ∈ lines, line.fields = width) :
    checkWidth none width lines = .ok () := by
  have hnone : lines.find? (isRagged none width) = none := by
    rw [List.find?_eq_none]
    intro line hm
    simp [isRagged, hw line hm]
  rw [checkWidth, hnone]

/-- The fields of lines of one width are all of their fields. -/
theorem dataFields_even (hn : lines ≠ []) (hw : ∀ line ∈ lines, line.fields = width) :
    dataFields none s lines = lines.map s.fields := by
  rw [dataFields, sourceColumns_even hn hw]
  apply List.map_congr_left
  intro line hm
  rw [Splitter.fields, hw line hm, List.range'_eq_map_range, List.map_map]
  refine List.map_congr_left fun col hcol => ?_
  rw [fieldIndex_of_lt ((hw line hm).symm ▸ List.mem_range.1 hcol)]
  rfl

end Even

end Matrix

end TypedTable.Csv
