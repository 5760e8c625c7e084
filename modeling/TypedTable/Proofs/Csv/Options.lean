import TypedTable.Proofs.Csv.OptionTexts

/-!
# Options by name

Each name stands for one place in the settings, whose values have one form of text. A change by name
reads a text and puts its value in the place, and the value is read back by the same name. So no
change reaches another place, and what is read from a place can be written there again.
-/

set_option autoImplicit false

namespace TypedTable.Csv

open OptionText

/-- How the values of a place are read from texts and printed. Every value that a text has is valid,
and a valid value is read from the text that is printed for it. -/
structure TextForm (α : Type) where
  parse : String → Except OptionFault α
  print : α → String
  Valid : α → Prop
  valid_of_parse {text : String} {value : α} : parse text = .ok value → Valid value
  parse_print {value : α} : Valid value → parse (print value) = .ok value

namespace TextForm

variable {α : Type}

def demand (name : OptionName) (parse? : String → Option α) (text : String) :
    Except OptionFault α :=
  match parse? text with
  | some value => .ok value
  | none => .error (.badValue name.text text)

theorem demand_eq_ok_iff {name : OptionName} {parse? : String → Option α} {text : String}
    {value : α} : demand name parse? text = .ok value ↔ parse? text = some value := by
  unfold demand
  cases parse? text <;> simp

def byte (name : OptionName) : TextForm UInt8 where
  parse := demand name fun text => (parseByte? text).join
  print := printByte
  Valid byte := byte.toNat < 128
  valid_of_parse h := lt_of_parseByte? (Option.join_eq_some_iff.1 (demand_eq_ok_iff.1 h))
  parse_print h := demand_eq_ok_iff.2 (by rw [parseByte?_printByte h]; rfl)

def optionalByte (name : OptionName) : TextForm (Option UInt8) where
  parse := demand name parseByte?
  print := printOptionalByte
  Valid byte := ∀ b ∈ byte, b.toNat < 128
  valid_of_parse h := by
    rintro b rfl
    exact lt_of_parseByte? (demand_eq_ok_iff.1 h)
  parse_print h := demand_eq_ok_iff.2 (parseByte?_printOptionalByte h)

def marker (name : OptionName) : TextForm UInt8 where
  parse := demand name fun text => (parseByte? text).join.map Numeral.toLower
  print := printByte
  Valid byte := byte.toNat < 128 ∧ Numeral.toLower byte = byte
  valid_of_parse h := by
    obtain ⟨read, hread, rfl⟩ := Option.map_eq_some_iff.1 (demand_eq_ok_iff.1 h)
    exact toLower_of_lt (lt_of_parseByte? (Option.join_eq_some_iff.1 hread))
  parse_print h := demand_eq_ok_iff.2 (by
    rw [parseByte?_printByte h.1, Option.join_some, Option.map_some, h.2])

def words [BEq α] (name : OptionName) (words : Words α)
    (h : ∀ word ∈ words, words.parse? (words.print word.2) = some word.2) : TextForm α where
  parse := demand name words.parse?
  print := words.print
  Valid value := ∃ text, (text, value) ∈ words
  valid_of_parse {text value} h := by
    obtain ⟨before, after, rfl, -⟩ := List.lookup_eq_some_iff.1 (demand_eq_ok_iff.1 h)
    exact ⟨text, by simp⟩
  parse_print {value} hv := by
    obtain ⟨text, hm⟩ := hv
    exact demand_eq_ok_iff.2 (h (text, value) hm)

def flag (name : OptionName) : TextForm Bool := words name .flag (by decide)

def number (name : OptionName) : TextForm Nat where
  parse := demand name parseNumber?
  print := Nat.repr
  Valid number := number < wordLimit
  valid_of_parse h := lt_of_numberOf? (demand_eq_ok_iff.1 h)
  parse_print h := demand_eq_ok_iff.2 (parseNumber?_repr h)

def optionalNumber (name : OptionName) : TextForm (Option Nat) where
  parse := demand name parseCount?
  print := printCount
  Valid count := ∀ number ∈ count, number < wordLimit
  valid_of_parse h := lt_of_parseCount? (demand_eq_ok_iff.1 h)
  parse_print h := demand_eq_ok_iff.2 (parseCount?_printCount h)

def lines : TextForm LineSet where
  parse := parseLines
  print := printLines
  Valid set := set.lines.Pairwise (· < ·) ∧ ∀ line ∈ set.lines, line < wordLimit
  valid_of_parse := lines_of_parseLines
  parse_print h := parseLines_printLines h.1 h.2

end TextForm

structure Item where
  Value : Type
  form : TextForm Value
  get : Settings → Value
  put : Settings → Value → Settings
  get_put (s : Settings) (value : Value) : get (put s value) = value := by intros; rfl
  put_get (s : Settings) : put s (get s) = s := by intros; rfl

def Item.ofDialect {α : Type} (form : TextForm α) (get : Dialect → α)
    (put : Dialect → α → Dialect) (hget : ∀ d value, get (put d value) = value := by intros; rfl)
    (hput : ∀ d, put d (get d) = d := by intros; rfl) : Item where
  Value := α
  form := form
  get s := get s.dialect
  put s value := s.onDialect (put · value)
  get_put s value := hget s.dialect value
  put_get s := by rw [Settings.onDialect, hput]

def OptionName.item (name : OptionName) : Item :=
  match name with
  | .delimiter => .ofDialect (.byte name) (·.delimiter) ({ · with delimiter := · })
  | .thousands => .ofDialect (.optionalByte name) (·.thousands) ({ · with thousands := · })
  | .decimal => .ofDialect (.byte name) (·.decimal) ({ · with decimal := · })
  | .comment => .ofDialect (.optionalByte name) (·.commentChar) ({ · with commentChar := · })
  | .quoteChar => .ofDialect (.byte name) (·.quoteChar) ({ · with quoteChar := · })
  | .escapeChar => .ofDialect (.optionalByte name) (·.escapeChar) ({ · with escapeChar := · })
  | .lineTerminator =>
    .ofDialect (.optionalByte name) (·.lineTerminator) ({ · with lineTerminator := · })
  | .exponentMarker => .ofDialect (.marker name) (·.exponentMarker) ({ · with exponentMarker := · })
  | .quoting => .ofDialect (.words name .quoting (by decide)) (·.quoting) ({ · with quoting := · })
  | .skippedLines => .ofDialect .lines (·.skippedLines) ({ · with skippedLines := · })
  | .doubleQuote => .ofDialect (.flag name) (·.doubleQuote) ({ · with doubleQuote := · })
  | .blankDelimited => .ofDialect (.flag name) (·.blankDelimited) ({ · with blankDelimited := · })
  | .skippedFirstLines =>
    .ofDialect (.number name) (·.skippedFirstLines) ({ · with skippedFirstLines := · })
  | .skipEmptyLines => .ofDialect (.flag name) (·.skipEmptyLines) ({ · with skipEmptyLines := · })
  | .skipInitialSpace =>
    .ofDialect (.flag name) (·.skipInitialSpace) ({ · with skipInitialSpace := · })
  | .skipTrailingSpace =>
    .ofDialect (.flag name) (·.skipTrailingSpace) ({ · with skipTrailingSpace := · })
  | .expectedFields =>
    .ofDialect (.optionalNumber name) (·.expectedFields) ({ · with expectedFields := · })
  | .badLines =>
    .ofDialect (.words name .badLines (by decide)) (·.onBadLines) ({ · with onBadLines := · })
  | .skipFooter => .mk _ (.flag name) (·.skipFooter) ({ · with skipFooter := · })
  | .warnForMissing => .mk _ (.flag name) (·.warnForMissing) ({ · with warnForMissing := · })
  | .header => .mk _ (.flag name) (·.header) ({ · with header := · })
  | .integersAsFloats => .mk _ (.flag name) (·.integersAsFloats) ({ · with integersAsFloats := · })
  | .memoryMapped => .mk _ (.flag name) (·.memoryMapped) ({ · with memoryMapped := · })
  | .chunkSize => .mk _ (.number name) (·.chunkSize) ({ · with chunkSize := · })
  | .loadType =>
    .mk _ (.words name .loadType (by decide)) (·.loadType) ({ · with loadType := · })
  | .precision =>
    .mk _ (.words name .precision (by decide)) (·.precision) ({ · with precision := · })
  | .order => .mk _ (.words name .order (by decide)) (·.order) ({ · with order := · })

/-! ## The two tables -/

namespace Settings

variable {s later : Settings} {name other : OptionName} {text : String}
  {declined : Declined}

/-- What is read by a name is the text of the value in the place with the name. -/
theorem read_eq (s : Settings) (name : OptionName) :
    s.read name = name.item.form.print (name.item.get s) := by
  cases name <;> rfl

theorem accept_eq {α : Type} (parse? : String → Option α) (change : α → Settings) :
    s.accept name text (parse? text) change =
      s.orDecline ((TextForm.demand name parse? text).map change) := by
  rw [TextForm.demand]
  cases parse? text <;> rfl

theorem accept_map {α β : Type} (value : Option α) (f : α → β) (change : β → Settings) :
    s.accept name text value (fun value => change (f value)) =
      s.accept name text (value.map f) change := by
  cases value <;> rfl

theorem write_eq (s : Settings) (name : OptionName) (text : String) :
    s.write name text = s.orDecline ((name.item.form.parse text).map (name.item.put s)) := by
  cases name
  case delimiter | decimal | quoteChar => exact accept_eq (fun text => (parseByte? text).join) _
  case exponentMarker =>
    refine Eq.trans ?_ (accept_eq (fun text => (parseByte? text).join.map Numeral.toLower) _)
    exact accept_map _ _ (fun byte => s.onDialect ({ · with exponentMarker := byte }))
  case skippedLines =>
    show (s.orDecline (parseLines text) >>= _) = s.orDecline ((parseLines text).map _)
    cases parseLines text <;> rfl
  all_goals exact accept_eq _ _

theorem get_put_of_ne (h : other ≠ name) (s : Settings) (value : name.item.Value) :
    other.item.get (name.item.put s value) = other.item.get s := by
  cases name <;> cases other <;> first | rfl | exact absurd rfl h

theorem write_eq_ok_iff : s.write name text = .ok later ↔
    ∃ value, name.item.form.parse text = .ok value ∧ name.item.put s value = later := by
  rw [write_eq, orDecline, mapError_eq_ok_iff]
  cases name.item.form.parse text with
  | ok value => simp [Except.map]
  | error fault => simp [Except.map]

theorem write_eq_error_iff : s.write name text = .error declined ↔
    name.item.form.parse text = .error declined.fault ∧ declined.left = s := by
  obtain ⟨fault, left⟩ := declined
  rw [write_eq, orDecline, mapError_eq_error_iff]
  cases name.item.form.parse text with
  | ok value => simp [Except.map]
  | error found => simp [Except.map, eq_comm]

theorem nameOf_eq_ok_iff {text : String} : nameOf text = .ok name ↔ name.text = text := by
  constructor
  · intro h
    unfold nameOf at h
    split at h
    next hfound =>
      cases h
      exact beq_iff_eq.1 (List.find?_some (p := fun name : OptionName => name.text == text) hfound)
    next => cases h
  · rintro rfl
    cases name <;> rfl

theorem set_eq_ok_iff {name : String} : s.set name text = .ok later ↔
    ∃ option : OptionName, option.text = name ∧ s.write option text = .ok later := by
  rw [set, bind_eq_ok_iff]
  simp only [orDecline, mapError_eq_ok_iff, nameOf_eq_ok_iff]

theorem get_text (s : Settings) (name : OptionName) : s.get name.text = .ok (s.read name) := by
  rw [get, nameOf_eq_ok_iff.2 rfl]
  rfl

theorem set_text (s : Settings) (name : OptionName) (text : String) :
    s.set name.text text = s.write name text := by
  rw [set, nameOf_eq_ok_iff.2 rfl]
  rfl

/-! ## Changes -/

def Writable (s : Settings) : Prop := ∀ name : OptionName, name.item.form.Valid (name.item.get s)

theorem writable_default : Writable {} := by
  intro name
  have hread : name.item.form.parse (Settings.read {} name) = .ok (name.item.get {}) := by
    cases name <;> rfl
  exact name.item.form.valid_of_parse hread

theorem Writable.put (h : s.Writable) {value : name.item.Value} (hv : name.item.form.Valid value) :
    (name.item.put s value).Writable := by
  intro other
  by_cases hother : other = name
  · subst hother
    rw [other.item.get_put]
    exact hv
  · rw [get_put_of_ne hother]
    exact h other

theorem Writable.write (h : s.Writable) (hok : s.write name text = .ok later) :
    later.Writable := by
  obtain ⟨value, hvalue, rfl⟩ := write_eq_ok_iff.1 hok
  exact h.put (name.item.form.valid_of_parse hvalue)

theorem Writable.write_read (h : s.Writable) (name : OptionName) :
    s.write name (s.read name) = .ok s := by
  rw [write_eq_ok_iff, read_eq]
  exact ⟨name.item.get s, name.item.form.parse_print (h name), name.item.put_get s⟩

theorem set_eq_error_iff {name : String} : s.set name text = .error declined ↔
    ((nameOf name = .error declined.fault ∨ ∃ option : OptionName, option.text = name ∧
      option.item.form.parse text = .error declined.fault) ∧ declined.left = s) := by
  obtain ⟨fault, left⟩ := declined
  rw [set, bind_eq_error_iff]
  simp only [orDecline, mapError_eq_ok_iff, mapError_eq_error_iff, nameOf_eq_ok_iff,
    write_eq_error_iff, Declined.mk.injEq]
  grind

def after (s : Settings) (call : String × String) : Settings :=
  match s.set call.1 call.2 with
  | .ok later => later
  | .error declined => declined.left

theorem Writable.after (h : s.Writable) (call : String × String) : (s.after call).Writable := by
  unfold Settings.after
  split
  next later hok =>
    obtain ⟨name, -, hwrite⟩ := set_eq_ok_iff.1 hok
    exact h.write hwrite
  next declined he =>
    obtain ⟨-, hleft⟩ := set_eq_error_iff.1 he
    exact hleft ▸ h

theorem Writable.foldl_after (h : s.Writable) (calls : List (String × String)) :
    (calls.foldl Settings.after s).Writable := by
  induction calls generalizing s with
  | nil => exact h
  | cons call later ih => exact ih (h.after call)

/-- What is read by a name may be written by it, and no name reaches what another one stands for. -/
structure RoundTrips (s : Settings) : Prop where
  stable (name : OptionName) : ∃ text, s.get name.text = .ok text ∧ s.set name.text text = .ok s
  /-- All values that are valid can be written, also those that a place does not hold. -/
  writes (name : OptionName) (value : name.item.Value) : name.item.form.Valid value →
    s.set name.text (name.item.form.print value) = .ok (name.item.put s value)
  others (name text other : String) (later : Settings) :
    s.set name text = .ok later → other ≠ name → later.get other = s.get other
  /-- A refused call changes nothing, and would be refused for any settings. -/
  refused (name text : String) (declined : Declined) : s.set name text = .error declined →
    declined.left = s ∧ s.after (name, text) = s ∧
      ∀ settings : Settings, settings.set name text = .error ⟨declined.fault, settings⟩

theorem Writable.roundTrips (h : s.Writable) : s.RoundTrips where
  stable name := ⟨s.read name, get_text s name, (set_text s name _).trans (h.write_read name)⟩
  writes name value hv := by
    rw [set_text, write_eq_ok_iff]
    exact ⟨value, name.item.form.parse_print hv, rfl⟩
  others name text other later hok hne := by
    obtain ⟨option, rfl, hwrite⟩ := set_eq_ok_iff.1 hok
    obtain ⟨value, -, rfl⟩ := write_eq_ok_iff.1 hwrite
    rw [get, get]
    cases hread : nameOf other with
    | error => rfl
    | ok read =>
      have hplace : read ≠ option := by
        rintro rfl
        exact hne (nameOf_eq_ok_iff.1 hread).symm
      rw [ok_bind, ok_bind, read_eq, read_eq, get_put_of_ne hplace]
  refused name text declined he := by
    obtain ⟨hfault, hleft⟩ := set_eq_error_iff.1 he
    refine ⟨hleft, ?_, fun settings => set_eq_error_iff.2 ⟨hfault, rfl⟩⟩
    rw [Settings.after, he]
    exact hleft

/-- After any calls, refused ones among them, every option can be read and written back. -/
theorem after_all_roundTrips (calls : List (String × String)) :
    RoundTrips (calls.foldl after {}) :=
  (writable_default.foldl_after calls).roundTrips

/-- The lines come back in order and the escape as it was, after a call that was refused. -/
example : (([("delimiter", "\\t"), ("skip rows", "7 3, +3"), ("delimiter", "ab")].foldl after
    {}).get "skip rows", ([("delimiter", "\\t"), ("delimiter", "ab")].foldl after {}).get
      "delimiter") = (.ok "3,7", .ok "\\t") := by
  rfl

end Settings

end TypedTable.Csv
