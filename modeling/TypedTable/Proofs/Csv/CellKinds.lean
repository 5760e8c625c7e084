import Mathlib.Data.Finset.Insert
import Mathlib.Data.Finset.Image
import Mathlib.Data.Fintype.Basic
import Mathlib.Logic.Equiv.Defs
import TypedTable.Proofs.Csv.Grouping

/-!
# The type of a column from the kinds of its cells

A column is found cell by cell, but its type is a matter of which kinds of cells there are, not of
their order. What it holds is read from each cell alone.
-/

set_option autoImplicit false

namespace TypedTable.Csv

namespace Precision

def type : Precision → ScalarType
  | .single => .float
  | .double => .double

end Precision

/-- The type of a column with cells of the given kinds. A cell that is of no type has kind
`none`. -/
def typeOfKinds (precision : Precision) (kinds : Finset (Option ScalarType)) : ScalarType :=
  if kinds ⊆ {some .int} then .int
  else if some precision.type ∈ kinds ∧ kinds ⊆ {some .int, some precision.type} then
    precision.type
  else if kinds.Nonempty ∧ kinds ⊆ {some .bool} then .bool
  else .str

section Kinds

variable {precision : Precision} {kinds more : Finset (Option ScalarType)}

def Precision.Candidate (precision : Precision) (type : ScalarType) : Prop :=
  type = .int ∨ type = precision.type ∨ type = .bool

def widen (precision : Precision) (type other : ScalarType) : ScalarType :=
  if type = other then type
  else if (type = .int ∨ type = precision.type) ∧ (other = .int ∨ other = precision.type) then
    precision.type
  else .str

theorem subset_numbers (precision : Precision) (h : kinds ⊆ {some .int}) :
    kinds ⊆ {some .int, some precision.type} :=
  h.trans (by simp)

theorem not_subset_bool (hne : kinds.Nonempty) (h : kinds ⊆ {some .int, some precision.type}) :
    ¬ kinds ⊆ {some .bool} := by
  intro hbools
  obtain ⟨kind, hkind⟩ := hne
  have hnumber := h hkind
  rw [Finset.mem_singleton.1 (hbools hkind)] at hnumber
  cases precision <;> revert hnumber <;> decide

/-- That there are cells of the type follows as soon as all cells have it or a smaller one. -/
theorem typeOfKinds_eq (precision : Precision) (kinds : Finset (Option ScalarType)) :
    typeOfKinds precision kinds =
      if kinds ⊆ {some .int} then .int
      else if kinds ⊆ {some .int, some precision.type} then precision.type
      else if kinds ⊆ {some .bool} then .bool
      else .str := by
  have hmem (hints : ¬ kinds ⊆ {some .int}) (h : kinds ⊆ {some .int, some precision.type}) :
      some precision.type ∈ kinds := by
    by_contra hno
    exact hints fun kind hkind => Finset.mem_singleton.2
      ((Finset.mem_insert.1 (h hkind)).resolve_right fun heq =>
        hno (Finset.mem_singleton.1 heq ▸ hkind))
  have hne (hints : ¬ kinds ⊆ {some .int}) : kinds.Nonempty :=
    Finset.nonempty_iff_ne_empty.2 fun hempty => hints (hempty ▸ Finset.empty_subset _)
  unfold typeOfKinds
  split_ifs <;> simp_all

/-- Only strings are left for cells that are neither all numbers nor all booleans. -/
theorem typeOfKinds_eq_str_iff :
    typeOfKinds precision kinds = .str ↔
      ¬ kinds ⊆ {some .int, some precision.type} ∧ ¬ kinds ⊆ {some .bool} := by
  have hne : precision.type ≠ .str := by cases precision <;> decide
  rw [typeOfKinds_eq]
  split_ifs with hints hnumbers hbools
  · simp [subset_numbers precision hints]
  · simp [hnumbers, hne]
  · simp [hbools]
  · simp [hnumbers, hbools]

theorem typeOfKinds_str_of_subset (h : typeOfKinds precision kinds = .str) (hsub : kinds ⊆ more) :
    typeOfKinds precision more = .str := by
  rw [typeOfKinds_eq_str_iff] at h ⊢
  exact ⟨fun hall => h.1 (hsub.trans hall), fun hall => h.2 (hsub.trans hall)⟩

theorem typeOfKinds_insert_none (precision : Precision) (kinds : Finset (Option ScalarType)) :
    typeOfKinds precision (insert none kinds) = .str := by
  rw [typeOfKinds_eq_str_iff, Finset.insert_subset_iff, Finset.insert_subset_iff]
  simp

theorem typeOfKinds_singleton {type : ScalarType} (h : precision.Candidate type) :
    typeOfKinds precision {some type} = type := by
  obtain rfl | rfl | rfl := h <;> cases precision <;> decide

theorem typeOfKinds_eq_str_or_candidate (precision : Precision)
    (kinds : Finset (Option ScalarType)) :
    typeOfKinds precision kinds = .str ∨ precision.Candidate (typeOfKinds precision kinds) := by
  rw [typeOfKinds_eq]
  split_ifs
  exacts [.inr (.inl rfl), .inr (.inr (.inl rfl)), .inr (.inr (.inr rfl)), .inl rfl]

theorem typeOfKinds_insert {type : ScalarType} (h : precision.Candidate type)
    (hne : kinds.Nonempty) :
    typeOfKinds precision (insert (some type) kinds) =
      widen precision (typeOfKinds precision kinds) type := by
  simp only [typeOfKinds_eq, Finset.insert_subset_iff]
  by_cases hints : kinds ⊆ {some .int}
  · have hnumbers := subset_numbers precision hints
    simp only [hints, hnumbers, not_subset_bool hne hnumbers, if_true, if_false, and_true,
      and_false]
    obtain rfl | rfl | rfl := h <;> cases precision <;> decide
  by_cases hnumbers : kinds ⊆ {some .int, some precision.type}
  · simp only [hints, hnumbers, not_subset_bool hne hnumbers, if_true, if_false, and_true,
      and_false]
    obtain rfl | rfl | rfl := h <;> cases precision <;> decide
  by_cases hbools : kinds ⊆ {some .bool}
  · simp only [hints, hnumbers, hbools, if_true, if_false, and_true, and_false]
    obtain rfl | rfl | rfl := h <;> cases precision <;> decide
  · simp only [hints, hnumbers, hbools, if_false, and_false]
    obtain rfl | rfl | rfl := h <;> cases precision <;> decide

end Kinds

section Entries

variable (d : Dialect) (preference : Preference) (text : String)

def integer? : Option Int64 :=
  if preference.integersAsFloats then none else Field.value? d (.scalar .int) (CellValue.bytes text)

def isOf (type : ScalarType) : Bool :=
  (Field.value? d (.scalar type) (CellValue.bytes text)).isSome

/-- The first type that a text is a value of: integer, unless those are not looked for, then the
floating point type that is asked for, then boolean. -/
def kind? : Option ScalarType :=
  if (integer? d preference text).isSome then some .int
  else if isOf d text preference.precision.type then some preference.precision.type
  else if isOf d text .bool then some .bool
  else none

def held? : (type : ScalarType) → Option type.Carrier
  | .int => integer? d preference text
  | .float =>
    ((integer? d preference text).map Int64.toFloat32).or
      (Field.value? d (.scalar .float) (CellValue.bytes text))
  | .double =>
    ((integer? d preference text).map Int64.toFloat).or
      (Field.value? d (.scalar .double) (CellValue.bytes text))
  | .bool => Field.value? d (.scalar .bool) (CellValue.bytes text)
  | .str => some text

def kinds (texts : List String) : Finset (Option ScalarType) :=
  (texts.map (kind? d preference)).toFinset

variable {d preference text}

theorem held?_of_integer {n : Int64} (h : integer? d preference text = some n) :
    held? d preference text .float = some n.toFloat32 ∧
      held? d preference text .double = some n.toFloat := by
  simp [held?, h]

theorem held?_of_no_integer {type : ScalarType} (h : integer? d preference text = none)
    (htype : type = .float ∨ type = .double) :
    held? d preference text type = Field.value? d (.scalar type) (CellValue.bytes text) := by
  obtain rfl | rfl := htype <;> simp [held?, h]

end Entries

namespace CellValue

variable {d : Dialect} {preference : Preference} {text : String} {value : CellValue}

def type : CellValue → ScalarType
  | .int _ => .int
  | .float _ => .float
  | .double _ => .double
  | .bool _ => .bool

def carried : (value : CellValue) → value.type.Carrier
  | .int value => value
  | .float value => value
  | .double value => value
  | .bool value => value

theorem ofText?_eq (d : Dialect) (preference : Preference) (text : String) :
    ofText? d preference text = ((integer? d preference text).map CellValue.int <|>
      ofFloatText? d preference.precision (bytes text) <|>
      (Field.value? d (.scalar .bool) (bytes text)).map CellValue.bool) := by
  rw [ofText?, integer?]
  cases preference.integersAsFloats <;> rfl

theorem ofFloatText?_eq_some {precision : Precision} {field : List UInt8}
    (h : ofFloatText? d precision field = some value) :
    value.type = precision.type ∧
      Field.value? d (.scalar value.type) field = some value.carried := by
  cases precision with
  | single =>
    obtain ⟨x, hx, rfl⟩ := Option.map_eq_some_iff.1 h
    exact ⟨rfl, hx⟩
  | double =>
    obtain ⟨x, hx, rfl⟩ := Option.map_eq_some_iff.1 h
    exact ⟨rfl, hx⟩

theorem isSome_ofFloatText? (d : Dialect) (precision : Precision) (text : String) :
    (ofFloatText? d precision (bytes text)).isSome = isOf d text precision.type := by
  cases precision <;> exact Option.isSome_map ..

theorem ofText?_eq_some (h : ofText? d preference text = some value) :
    (∃ n, integer? d preference text = some n ∧ value = .int n) ∨
    integer? d preference text = none ∧
      (ofFloatText? d preference.precision (bytes text) = some value ∨
        ∃ b, Field.value? d (.scalar .bool) (bytes text) = some b ∧ value = .bool b) := by
  rw [ofText?_eq] at h
  cases hint : integer? d preference text with
  | some n =>
    rw [hint] at h
    exact .inl ⟨n, rfl, (Option.some.inj h).symm⟩
  | none =>
    rw [hint] at h
    refine .inr ⟨rfl, ?_⟩
    cases hfloat : ofFloatText? d preference.precision (bytes text) with
    | some found =>
      rw [hfloat] at h
      exact .inl h
    | none =>
      rw [hfloat] at h
      obtain ⟨b, hb, hvalue⟩ := Option.map_eq_some_iff.1 h
      exact .inr ⟨b, hb, hvalue.symm⟩

theorem kind?_eq (d : Dialect) (preference : Preference) (text : String) :
    kind? d preference text = (ofText? d preference text).map type := by
  rw [ofText?_eq, kind?, ← isSome_ofFloatText?]
  cases integer? d preference text with
  | some n => rfl
  | none =>
    cases hfloat : ofFloatText? d preference.precision (bytes text) with
    | some found => exact congrArg some (ofFloatText?_eq_some hfloat).1.symm
    | none =>
      rw [isOf]
      rcases Field.value? d (.scalar .bool) (bytes text) with - | b <;> rfl

theorem held?_eq (h : ofText? d preference text = some value) :
    held? d preference text value.type = some value.carried := by
  obtain ⟨n, hint, rfl⟩ | ⟨hint, hfloat | ⟨b, hb, rfl⟩⟩ := ofText?_eq_some h
  · exact hint
  · obtain ⟨htype, hvalue⟩ := ofFloatText?_eq_some hfloat
    have hfloating : value.type = .float ∨ value.type = .double := by
      rw [htype]
      cases preference.precision
      exacts [.inl rfl, .inr rfl]
    rw [held?_of_no_integer hint hfloating, hvalue]
  · exact hb

/-- The only floating point type that a text is read as is the one that is asked for. -/
theorem type_of_ofText? (h : ofText? d preference text = some value) :
    value.type = .int ∨ value.type = preference.precision.type ∨ value.type = .bool := by
  obtain ⟨n, -, rfl⟩ | ⟨-, hfloat | ⟨b, -, rfl⟩⟩ := ofText?_eq_some h
  · exact .inl rfl
  · exact .inr (.inl (ofFloatText?_eq_some hfloat).1)
  · exact .inr (.inr rfl)

end CellValue

namespace TypedColumn

variable {d : Dialect} {preference : Preference} {column later : TypedColumn}
  {texts rest : List String} {text : String}

theorem kinds_concat (d : Dialect) (preference : Preference) (texts : List String)
    (text : String) :
    kinds d preference (texts ++ [text]) =
      insert (kind? d preference text) (kinds d preference texts) := by
  ext kind
  simp [kinds]

theorem type_push? {precision : Precision} {value : CellValue}
    (hcolumn : column.type = .str ∨ precision.Candidate column.type)
    (hvalue : precision.Candidate value.type) (hsize : column.size ≠ 0) :
    (column.push? value).elim .str type = widen precision column.type value.type := by
  cases column <;> cases value <;> cases precision <;>
    simp_all [push?, widen, Precision.Candidate, Precision.type, type, CellValue.type]

theorem type_push?_first {value : CellValue} (htype : column.type = .int)
    (hsize : column.size = 0) : (column.push? value).elim .str type = value.type := by
  cases column with
  | int values =>
    have hempty : values = #[] := Array.eq_empty_of_size_eq_zero hsize
    rw [hempty]
    cases value <;> rfl
  | _ => cases htype

theorem type_addCell? (htype : column.type = typeOfKinds preference.precision
    (kinds d preference texts)) (hsize : column.size = texts.length) (text : String) :
    (addCell? d preference column text).elim .str type =
      typeOfKinds preference.precision (kinds d preference (texts ++ [text])) := by
  rw [kinds_concat, CellValue.kind?_eq, addCell?]
  cases hvalue : CellValue.ofText? d preference text with
  | none => exact (typeOfKinds_insert_none ..).symm
  | some value =>
    have hcandidate := CellValue.type_of_ofText? hvalue
    show (column.push? value).elim .str type = typeOfKinds preference.precision
      (insert (some value.type) (kinds d preference texts))
    cases texts with
    | nil =>
      rw [type_push?_first htype hsize]
      exact (typeOfKinds_singleton hcandidate).symm
    | cons first others =>
      have hne : (kinds d preference (first :: others)).Nonempty :=
        ⟨kind? d preference first, by simp [kinds]⟩
      rw [typeOfKinds_insert hcandidate hne, ← htype,
        type_push? (htype ▸ typeOfKinds_eq_str_or_candidate ..) hcandidate (by simp [hsize])]

/-- The type of a column that some cells were added to is that of all its cells, and it is one of
strings if one of them does not fit. -/
theorem type_addCells (htype : column.type = typeOfKinds preference.precision
    (kinds d preference texts)) (hsize : column.size = texts.length) (cells : List String) :
    (cells.foldlM (addCell? d preference) column).elim .str type =
      typeOfKinds preference.precision (kinds d preference (texts ++ cells)) := by
  induction cells generalizing column texts with
  | nil => rw [List.append_nil, ← htype]; rfl
  | cons text rest ih =>
    have hstep := type_addCell? htype hsize text
    rw [List.foldlM_cons]
    cases hnext : addCell? d preference column text with
    | none =>
      rw [hnext] at hstep
      refine (typeOfKinds_str_of_subset hstep.symm fun kind => ?_).symm
      simp only [kinds, List.mem_toFinset, List.map_append, List.mem_append, List.map_cons,
        List.map_nil, List.mem_cons, List.not_mem_nil, or_false]
      exact Or.imp_right .inl
    | some next =>
      rw [hnext] at hstep
      have hgrown : next.size = (texts ++ [text]).length := by
        rw [size_addCell? hnext, hsize, List.length_append, List.length_singleton]
      have hrest := ih hstep hgrown
      rwa [List.append_assoc] at hrest

theorem type_ofCells (d : Dialect) (preference : Preference) (cells : List String) :
    (ofCells d preference cells).type =
      typeOfKinds preference.precision (kinds d preference cells) := by
  have hempty : (int #[]).type = typeOfKinds preference.precision (kinds d preference []) := rfl
  have hrun := type_addCells hempty rfl cells
  rw [List.nil_append] at hrun
  rw [ofCells_eq, ← hrun]
  cases cells.foldlM (addCell? d preference) (.int #[]) <;> rfl

def Holds (d : Dialect) (preference : Preference) (texts : List String) (type : ScalarType)
    (values : List type.Carrier) : Prop :=
  texts.map (held? d preference · type) = values.map some

theorem Holds.push {type : ScalarType} {values : Array type.Carrier} {value : type.Carrier}
    (h : Holds d preference texts type values.toList)
    (hentry : held? d preference text type = some value) :
    Holds d preference (texts ++ [text]) type (values.push value).toList := by
  rw [Holds, List.map_append, h, Array.toList_push, List.map_append, List.map_singleton, hentry]
  rfl

theorem Holds.of_integers {values : List Int64} (h : Holds d preference texts .int values) :
    Holds d preference texts .float (values.map Int64.toFloat32) ∧
      Holds d preference texts .double (values.map Int64.toFloat) := by
  induction texts generalizing values with
  | nil =>
    obtain rfl := List.map_eq_nil_iff.1 h.symm
    exact ⟨rfl, rfl⟩
  | cons text rest ih =>
    cases values with
    | nil => cases h
    | cons n values =>
      obtain ⟨hfirst, hrest⟩ := List.cons.inj h
      obtain ⟨hfloat, hdouble⟩ := held?_of_integer hfirst
      obtain ⟨hfloats, hdoubles⟩ := ih hrest
      exact ⟨congrArg₂ List.cons hfloat hfloats, congrArg₂ List.cons hdouble hdoubles⟩

theorem holds_of_push? (h : Holds d preference texts column.type column.values.toList)
    {value : CellValue} (hvalue : CellValue.ofText? d preference text = some value)
    (hpush : column.push? value = some later) :
    Holds d preference (texts ++ [text]) later.type later.values.toList := by
  have hentry := CellValue.held?_eq hvalue
  unfold push? at hpush
  split at hpush
  -- integers become floating point numbers with the first one that is none
  case h_2 values x =>
    cases hpush
    have hints : Holds d preference texts .int values.toList := h
    have hvalues := hints.of_integers.2
    rw [← Array.toList_map] at hvalues
    exact hvalues.push hentry
  case h_3 values x =>
    cases hpush
    have hints : Holds d preference texts .int values.toList := h
    have hvalues := hints.of_integers.1
    rw [← Array.toList_map] at hvalues
    exact hvalues.push hentry
  -- truth values only begin a column
  case h_4 values b =>
    split_ifs at hpush with hempty
    cases hpush
    have htexts : texts = [] := by
      rw [Array.isEmpty_iff.1 hempty] at h
      exact List.map_eq_nil_iff.1 h
    rw [htexts]
    exact congrArg (fun entry => [entry]) hentry
  case h_6 =>
    cases hpush
    exact h.push (held?_of_integer hentry).2
  case h_8 =>
    cases hpush
    exact h.push (held?_of_integer hentry).1
  case h_10 => cases hpush
  all_goals
    cases hpush
    exact h.push hentry

theorem holds_of_addCell? (h : Holds d preference texts column.type column.values.toList)
    {text : String} (hadd : column.addCell? d preference text = some later) :
    Holds d preference (texts ++ [text]) later.type later.values.toList := by
  obtain ⟨value, hvalue, hpush⟩ := Option.bind_eq_some_iff.1 hadd
  exact holds_of_push? h hvalue hpush

theorem holds_ofCells (d : Dialect) (preference : Preference) (cells : List String) :
    Holds d preference cells (ofCells d preference cells).type
      (ofCells d preference cells).values.toList := by
  rw [ofCells_eq]
  cases hrun : cells.foldlM (TypedColumn.addCell? d preference) (.int #[]) with
  | none => rfl
  | some later =>
    have hempty : Holds d preference [] (int #[]).type (int #[]).values.toList := rfl
    exact foldlM_prefix
      (P := fun texts column => Holds d preference texts column.type column.values.toList)
      (fun h hadd => holds_of_addCell? h hadd) hempty hrun

def cell? (column : TypedColumn) (row : Nat) : Option Cell :=
  column.values[row]?.map (Cell.mk column.type)

end TypedColumn

namespace Matrix

variable {d : Dialect} {preference : Preference} {cells others : Array String}
  {rows cols row col : Nat}

def textAt (cells : Array String) (cols row col : Nat) : String := cells.getD (row * cols + col) ""

def columnKinds (d : Dialect) (preference : Preference) (cells : Array String)
    (rows cols col : Nat) : Finset (Option ScalarType) :=
  Finset.univ.image fun row : Fin rows => kind? d preference (textAt cells cols row col)

/-- The rows of the second matrix are those of the first in the given order. -/
def Reordered (rows cols : Nat) (order : Equiv.Perm (Fin rows)) (cells others : Array String) :
    Prop :=
  ∀ (row : Fin rows), ∀ col < cols, textAt others cols row col = textAt cells cols (order row) col

def column (d : Dialect) (preference : Preference) (cells : Array String) (rows cols col : Nat) :
    TypedColumn :=
  TypedColumn.ofCells d preference ((List.range rows).map (textAt cells cols · col))

theorem getElem?_ofMatrix (hc : col < cols) :
    (TypedColumn.ofMatrix d preference cells rows cols)[col]? =
      some (column d preference cells rows cols col) := by
  rw [TypedColumn.ofMatrix, List.getElem?_map, List.getElem?_range hc]
  rfl

theorem size_column (d : Dialect) (preference : Preference) (cells : Array String)
    (rows cols col : Nat) : (column d preference cells rows cols col).size = rows := by
  rw [column, TypedColumn.size_ofCells, List.length_map, List.length_range]

theorem type_column (d : Dialect) (preference : Preference) (cells : Array String)
    (rows cols col : Nat) :
    (column d preference cells rows cols col).type =
      typeOfKinds preference.precision (columnKinds d preference cells rows cols col) := by
  rw [column, TypedColumn.type_ofCells]
  congr 1
  ext kind
  simp [kinds, columnKinds, Fin.exists_iff]

theorem value_column (d : Dialect) (preference : Preference) (cells : Array String) (cols col : Nat)
    (hr : row < rows) :
    ∃ value, held? d preference (textAt cells cols row col)
        (column d preference cells rows cols col).type = some value ∧
      (column d preference cells rows cols col).values[row]? = some value := by
  have hholds := TypedColumn.holds_ofCells d preference
    ((List.range rows).map (textAt cells cols · col))
  have hrow := congrArg (·[row]?) hholds
  simp only [List.getElem?_map, List.getElem?_range hr, Option.map_some,
    Array.getElem?_toList] at hrow
  obtain ⟨value, hvalue, hentry⟩ := Option.map_eq_some_iff.1 hrow.symm
  exact ⟨value, hentry.symm, hvalue⟩

theorem cell?_column (d : Dialect) (preference : Preference) (cells : Array String)
    (cols col : Nat) (hr : row < rows) :
    (column d preference cells rows cols col).cell? row =
      (held? d preference (textAt cells cols row col)
        (column d preference cells rows cols col).type).map (Cell.mk _) := by
  obtain ⟨value, hentry, hvalue⟩ := value_column d preference cells cols col hr
  rw [TypedColumn.cell?, hentry, hvalue]

theorem columnKinds_reordered {order : Equiv.Perm (Fin rows)}
    (h : Reordered rows cols order cells others) (hc : col < cols) :
    columnKinds d preference others rows cols col =
      columnKinds d preference cells rows cols col := by
  ext kind
  simp only [columnKinds, Finset.mem_image, Finset.mem_univ, true_and]
  constructor
  · rintro ⟨row, rfl⟩
    exact ⟨order row, by rw [h row col hc]⟩
  · rintro ⟨row, rfl⟩
    exact ⟨order.symm row, by rw [h _ col hc, Equiv.apply_symm_apply]⟩

theorem type_reordered {order : Equiv.Perm (Fin rows)}
    (h : Reordered rows cols order cells others) (hc : col < cols) :
    (column d preference others rows cols col).type =
      (column d preference cells rows cols col).type := by
  rw [type_column, type_column, columnKinds_reordered h hc]

end Matrix

/-- The type of a column is a matter of which kinds of cells it has, and each of its values of its
type and of the text of its cell. -/
theorem ofMatrix_by_kinds (d : Dialect) (preference : Preference) (cells : Array String)
    (rows cols : Nat) :
    (TypedColumn.ofMatrix d preference cells rows cols).length = cols ∧
      ∀ col < cols, ∃ column,
        (TypedColumn.ofMatrix d preference cells rows cols)[col]? = some column ∧
        column.size = rows ∧
        column.type = typeOfKinds preference.precision
          (Matrix.columnKinds d preference cells rows cols col) ∧
        (∀ row < rows, ∃ value,
          held? d preference (Matrix.textAt cells cols row col) column.type = some value ∧
            column.values[row]? = some value) ∧
        ∀ (order : Equiv.Perm (Fin rows)) (others : Array String),
          Matrix.Reordered rows cols order cells others →
          ∃ other, (TypedColumn.ofMatrix d preference others rows cols)[col]? = some other ∧
            other.type = column.type ∧
            ∀ row : Fin rows, other.cell? row = column.cell? (order row) := by
  refine ⟨by simp [TypedColumn.ofMatrix], fun col hc => ⟨_, Matrix.getElem?_ofMatrix hc,
    Matrix.size_column .., Matrix.type_column .., fun row hr => Matrix.value_column _ _ _ _ _ hr,
    fun order others horder => ⟨_, Matrix.getElem?_ofMatrix hc, ?_, fun row => ?_⟩⟩⟩
  · exact Matrix.type_reordered horder hc
  · rw [Matrix.cell?_column _ _ _ _ _ row.isLt, Matrix.cell?_column _ _ _ _ _ (order row).isLt,
      Matrix.type_reordered horder hc, horder row col hc]

theorem ofMatrix_by_kinds_swapped :
    ∃ column other, (TypedColumn.ofMatrix {} {} #["7", "x"] 2 1)[0]? = some column ∧
      column.type = .str ∧
      (TypedColumn.ofMatrix {} {} #["x", "7"] 2 1)[0]? = some other ∧ other.type = .str ∧
      ∀ row : Fin 2,
        other.cell? row = column.cell? ((Equiv.swap 0 1 : Equiv.Perm (Fin 2)) row) := by
  have hkinds : typeOfKinds .double (Matrix.columnKinds {} {} #["7", "x"] 2 1 0) = .str := by
    decide +kernel
  have horder : Matrix.Reordered 2 1 (Equiv.swap 0 1) #["7", "x"] #["x", "7"] := by
    unfold Matrix.Reordered
    decide
  obtain ⟨column, hcolumn, -, htype, -, hperm⟩ :=
    (ofMatrix_by_kinds {} {} #["7", "x"] 2 1).2 0 (by decide)
  obtain ⟨other, hother, hsame, hcells⟩ := hperm (Equiv.swap 0 1) #["x", "7"] horder
  have hstr := htype.trans hkinds
  exact ⟨column, other, hcolumn, hstr, hother, hsame.trans hstr, hcells⟩

end TypedTable.Csv
