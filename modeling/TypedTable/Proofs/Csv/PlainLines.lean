import TypedTable.Proofs.Csv.LineEndings
import TypedTable.Proofs.Csv.Skipping
import TypedTable.Proofs.Csv.Trailing

/-!
# Lines without quotes

A text without quotes, escapes and carriage returns is read line by line. Two splitters run beside
each other in a line, one of which skips nothing and holds no blanks back: what they build is the
same. So a line that is not passed over has the fields that it has on its own.
-/

set_option autoImplicit false

namespace TypedTable.Csv

/-! ## Lines of a text -/

/-- The lines of a text, each with its line feed. The last one may lack it. -/
def physicalLines : List UInt8 → List (List UInt8)
  | [] => []
  | c :: rest =>
    if c = 10 then [10] :: physicalLines rest
    else
      match physicalLines rest with
      | [] => [[c]]
      | line :: later => (c :: line) :: later

section Lines

variable {text rest content : List UInt8}

theorem physicalLines_feed (rest : List UInt8) :
    physicalLines (10 :: rest) = [10] :: physicalLines rest := by
  rw [physicalLines, if_pos rfl]

theorem physicalLines_line (ht : 10 ∉ text) (rest : List UInt8) :
    physicalLines (text ++ 10 :: rest) = (text ++ [10]) :: physicalLines rest := by
  induction text with
  | nil => exact physicalLines_feed rest
  | cons c text ih =>
    obtain ⟨hc, hrest⟩ := List.ne_and_not_mem_of_not_mem_cons ht
    rw [List.cons_append, physicalLines, if_neg hc.symm, ih hrest]
    rfl

theorem physicalLines_last (ht : 10 ∉ text) (hn : text ≠ []) : physicalLines text = [text] := by
  induction text with
  | nil => exact absurd rfl hn
  | cons c text ih =>
    obtain ⟨hc, hrest⟩ := List.ne_and_not_mem_of_not_mem_cons ht
    rw [physicalLines, if_neg hc.symm]
    cases text with
    | nil => rfl
    | cons b text => rw [ih hrest (List.cons_ne_nil b text)]

theorem write_feed_cons (text : List UInt8) (texts : List (List UInt8)) :
    LineEnding.feed.write (text :: texts) = (text ++ [10]) ++ LineEnding.feed.write texts := rfl

theorem mem_write_feed {texts : List (List UInt8)} {c : UInt8} (hm : text ∈ texts)
    (hc : c ∈ text ++ [10]) : c ∈ LineEnding.feed.write texts := List.mem_flatMap.2 ⟨text, hm, hc⟩

theorem physicalLines_write {texts : List (List UInt8)} {last : List UInt8}
    (ht : ∀ text ∈ texts, 10 ∉ text) (hl : 10 ∉ last) :
    physicalLines (LineEnding.feed.write texts ++ last) =
      texts.map (· ++ [10]) ++ if last = [] then [] else [last] := by
  induction texts with
  | nil =>
    show physicalLines last = _
    split_ifs with hn
    · rw [hn]
      rfl
    · exact physicalLines_last hl hn
  | cons text texts ih =>
    rw [write_feed_cons, List.append_assoc, List.append_assoc, List.singleton_append,
      physicalLines_line (ht text (by simp)), ih fun text hm => ht text (by simp [hm])]
    rfl

/-- Every text is some lines with line feeds and then one without. -/
theorem exists_lines (content : List UInt8) : ∃ (texts : List (List UInt8)) (last : List UInt8),
    content = LineEnding.feed.write texts ++ last ∧ (∀ text ∈ texts, 10 ∉ text) ∧ 10 ∉ last := by
  induction content with
  | nil => exact ⟨[], [], rfl, by simp, by simp⟩
  | cons c rest ih =>
    obtain ⟨texts, last, rfl, ht, hl⟩ := ih
    by_cases hc : c = 10
    · subst hc
      refine ⟨[] :: texts, last, rfl, ?_, hl⟩
      rintro text (_ | ⟨_, hm⟩)
      · simp
      · exact ht text hm
    · cases texts with
      | nil => exact ⟨[], c :: last, rfl, by simp, by simp [Ne.symm hc, hl]⟩
      | cons text texts =>
        refine ⟨(c :: text) :: texts, last, rfl, ?_, hl⟩
        rintro other (_ | ⟨_, hm⟩)
        · simp [Ne.symm hc, ht text (by simp)]
        · exact ht other (List.mem_cons_of_mem text hm)

end Lines

namespace Dialect

def alone (d : Dialect) : Dialect :=
  { d with skipEmptyLines := false, skippedLines := {}, skippedFirstLines := 0 }

variable {d : Dialect} {c : UInt8}

@[simp] theorem alone_skipsLine (d : Dialect) (line : Nat) : d.alone.skipsLine line = false := by
  simp [skipsLine, alone, LineSet.contains]

theorem Plain.alone (h : d.Plain c) : d.alone.Plain c := ⟨h.ending, h.quote, h.escape⟩

def KeepsBlanks (d : Dialect) : Prop := ∀ c, isSpaceOrTab c = true → d.isComment c = false

theorem keepsBlanks_of_eq_false (hspace : d.isComment 32 = false) (htab : d.isComment 9 = false) :
    d.KeepsBlanks := by
  intro c hc
  have hc : c = 32 ∨ c = 9 := by simpa [isSpaceOrTab] using hc
  rcases hc with rfl | rfl
  · exact hspace
  · exact htab

end Dialect

namespace Splitter

variable {d : Dialect} {base shadow s t u : Splitter} {c : UInt8} {text : List UInt8} {line : Nat}
  {records : List (Nat × List (List UInt8))} {fields : List (List UInt8)} {rest : List UInt8}

namespace Keeps

theorem enter (h : s.Keeps records fields rest) (state : SplitState) :
    (s.enter state).Keeps records fields rest := ⟨h.holds.enter state, h.numbers⟩

theorem push (h : s.Keeps records fields rest) (c : UInt8) :
    (s.push c).Keeps records fields (rest ++ [c]) := ⟨h.holds.push c, h.numbers⟩

theorem closeField (h : s.Keeps records fields rest) :
    s.closeField.Keeps records (fields ++ [rest]) [] := ⟨h.holds.closeField, h.numbers⟩

theorem countLine (h : s.Keeps records fields rest) : s.countLine.Keeps records fields rest :=
  ⟨h.holds.countLine, h.numbers⟩

theorem discardLine (h : s.Keeps records fields []) : s.discardLine.Keeps records [] [] :=
  ⟨h.holds.discardLine, h.numbers⟩

theorem hold (h : s.Keeps records fields rest) (blanks : Array UInt8) :
    { s with heldBlanks := blanks }.Keeps records fields rest := ⟨h.holds.hold blanks, h.numbers⟩

theorem warn (h : s.Keeps records fields rest) (warnings : Array Warning) :
    { s with warnings := warnings }.Keeps records fields rest :=
  ⟨⟨h.holds.stream, h.holds.count, h.holds.line, h.holds.lineStart, h.holds.openFields⟩, h.numbers⟩

end Keeps

/-! ## Together each other in a line -/

/-- `s` has gone on from `base` within a line, of which it has the finished `fields` and behind them
the bytes `rest`. -/
structure Drafts (base : Splitter) (fields : List (List UInt8)) (rest : List UInt8) (s : Splitter) :
    Prop where
  keeps : s.Keeps base.records fields rest
  headerLines : s.headerLines = base.headerLines
  anyWidth : s.anyWidth = base.anyWidth
  fileLines : s.fileLines = base.fileLines
  firstSize : s.stream.firstSize = base.stream.firstSize

namespace Drafts

theorem enter (h : base.Drafts fields rest s) (state : SplitState) :
    base.Drafts fields rest (s.enter state) := { h with keeps := h.keeps.enter state }

theorem push (h : base.Drafts fields rest s) (c : UInt8) :
    base.Drafts fields (rest ++ [c]) (s.push c) := { h with keeps := h.keeps.push c }

theorem closeField (h : base.Drafts fields rest s) :
    base.Drafts (fields ++ [rest]) [] s.closeField := { h with keeps := h.keeps.closeField }

theorem hold (h : base.Drafts fields rest s) (blanks : Array UInt8) :
    base.Drafts fields rest { s with heldBlanks := blanks } :=
  { h with keeps := h.keeps.hold blanks }

end Drafts

def Both (P : Splitter → Splitter → Prop) (x y : Except (Halted Splitter) Splitter) : Prop :=
  ∃ s u, x = .ok s ∧ y = .ok u ∧ P s u

theorem Both.ok {P : Splitter → Splitter → Prop} (h : P s u) : Both P (.ok s) (.ok u) :=
  ⟨s, u, rfl, rfl, h⟩

theorem Both.bind {P Q : Splitter → Splitter → Prop} {x y : Except (Halted Splitter) Splitter}
    {f g : Splitter → Except (Halted Splitter) Splitter} (h : Both P x y)
    (hf : ∀ s u, P s u → Both Q (f s) (g u)) : Both Q (x >>= f) (y >>= g) := by
  obtain ⟨s, u, rfl, rfl, h⟩ := h
  exact hf s u h

theorem Both.mono {P Q : Splitter → Splitter → Prop} {x y : Except (Halted Splitter) Splitter}
    (h : Both P x y) (hpq : ∀ s u, P s u → Q s u) : Both Q x y := by
  obtain ⟨s, u, hs, hu, h⟩ := h
  exact ⟨s, u, hs, hu, hpq s u h⟩

structure Alike (base shadow : Splitter) (p : OpenPart) (s u : Splitter) : Prop where
  state : u.state = s.state
  contents : ∃ fields rest, p.Allows fields rest ∧ base.Drafts fields rest s ∧
    shadow.Drafts fields rest u

namespace Alike

variable {p : OpenPart}

theorem enter (h : Alike base shadow p s u) (state : SplitState) :
    Alike base shadow p (s.enter state) (u.enter state) := by
  obtain ⟨fields, rest, hallows, hs, hu⟩ := h.contents
  exact ⟨rfl, fields, rest, hallows, hs.enter state, hu.enter state⟩

theorem push (h : Alike base shadow p s u) (c : UInt8) :
    Alike base shadow .bytes (s.push c) (u.push c) := by
  obtain ⟨fields, rest, -, hs, hu⟩ := h.contents
  exact ⟨h.state, fields, rest ++ [c], ⟨by simp, by simp⟩, hs.push c, hu.push c⟩

theorem closeField (h : Alike base shadow p s u) :
    Alike base shadow .fields s.closeField u.closeField := by
  obtain ⟨fields, rest, -, hs, hu⟩ := h.contents
  exact ⟨h.state, fields ++ [rest], [], ⟨by simp, by simp⟩, hs.closeField, hu.closeField⟩

def Open (base shadow s u : Splitter) : Prop :=
  s.state.isOpen = true ∧ Alike base shadow s.state.openPart s u

theorem of_state {state : SplitState} (h : Alike base shadow state.openPart s u)
    (hs : s.state = state) (hopen : state.isOpen = true) : Open base shadow s u := by
  subst hs
  exact ⟨hopen, h⟩

theorem readAtFieldStart (hc : d.Plain c) (h : Alike base shadow .fields s u)
    (hs : s.state = .fieldStart) :
    Both (Open base shadow) (s.readAtFieldStart d c) (u.readAtFieldStart d c) := by
  simp only [Splitter.readAtFieldStart, hc.not_terminator, hc.not_return, hc.quote, hc.escape,
    Bool.false_eq_true, if_false]
  split_ifs
  · exact .ok (h.of_state hs rfl)
  · exact .ok ⟨rfl, h.enter _⟩
  · exact .ok (h.closeField.of_state (s := s.closeField) hs rfl)
  · exact .ok ⟨rfl, h.closeField.enter _⟩
  · exact .ok ⟨rfl, (h.push c).enter _⟩

theorem readByte (hc : d.Plain c) (h : Open base shadow s u) :
    Both (Open base shadow) (s.readByte d c) (u.readByte d c) := by
  obtain ⟨hopen, h⟩ := h
  have hu := h.state
  rw [readByte_of_not_return d c s (by intro hs; simp [hs, SplitState.isOpen] at hopen)
      (by intro hs; simp [hs, SplitState.isOpen] at hopen),
    readByte_of_not_return d c u (by intro hs; simp [← hu, hs, SplitState.isOpen] at hopen)
      (by intro hs; simp [← hu, hs, SplitState.isOpen] at hopen), accept, accept, hu]
  cases hs : s.state with
  | fieldStart =>
    rw [hs] at h
    exact readAtFieldStart hc h hs
  | inField =>
    rw [hs] at h
    simp only [readInField, afterDelimiter, hc.not_terminator, hc.not_return, hc.escape,
      Bool.false_eq_true, if_false]
    split_ifs
    · exact .ok ⟨rfl, h.closeField.enter _⟩
    · exact .ok ⟨rfl, h.closeField.enter _⟩
    · exact .ok ⟨rfl, h.closeField.enter _⟩
    · exact .ok ((h.push c).of_state (s := s.push c) hs rfl)
  | betweenFields =>
    rw [hs] at h
    simp only [readBetweenFields, hc.not_terminator, hc.not_return, Bool.false_eq_true, if_false]
    split_ifs
    · exact .ok ⟨rfl, h.enter _⟩
    · exact .ok (h.of_state hs rfl)
    · exact readAtFieldStart hc (h.enter .fieldStart) rfl
  | inTrailingComment =>
    rw [hs] at h
    simp only [readInTrailingComment, hc.not_terminator, hc.not_return, Bool.false_eq_true,
      if_false]
    exact .ok (h.of_state hs rfl)
  | _ => simp [hs, SplitState.isOpen] at hopen

end Alike

/-! ## Blanks that are held back -/

def keptBlanks (d : Dialect) (held : List UInt8) : List UInt8 :=
  if d.skipInitialSpace then held.dropWhile (· == 32) else held

theorem releaseBlanks_eq (d : Dialect) (s : Splitter) :
    s.releaseBlanks d =
      ((keptBlanks d s.heldBlanks.toList).foldl push { s with heldBlanks := #[] }).enter
        (if (keptBlanks d s.heldBlanks.toList).isEmpty then .fieldStart else .inField) := rfl

theorem keptBlanks_concat (d : Dialect) (held : List UInt8) (c : UInt8) :
    keptBlanks d (held ++ [c]) =
      if keptBlanks d held = [] ∧ d.skipInitialSpace = true ∧ c = 32 then []
      else keptBlanks d held ++ [c] := by
  unfold keptBlanks
  by_cases hskip : d.skipInitialSpace = true
  · simp only [hskip, if_true, true_and, List.dropWhile_append, List.isEmpty_iff]
    by_cases hnone : held.dropWhile (· == 32) = []
    · by_cases hc : c = 32 <;> simp [hnone, hc]
    · simp [hnone]
  · simp [hskip]

theorem readByte_releaseBlanks (hc : d.Plain c) (hb : d.blankDelimited = false)
    (hne : c ≠ d.delimiter) (hcomment : d.isComment c = false) (s : Splitter) :
    (s.releaseBlanks d).readByte d c =
      .ok ({ s with heldBlanks := s.heldBlanks.push c }.releaseBlanks d) := by
  have hdelimiter : d.isDelimiter c = false := by simp [Dialect.isDelimiter, hb, hne]
  have hinitial : d.isInitialSpace c = (c == 32 && d.skipInitialSpace) := by
    simp [Dialect.isInitialSpace, hb]
  simp only [releaseBlanks_eq, Array.toList_push, keptBlanks_concat]
  by_cases hnone : keptBlanks d s.heldBlanks.toList = []
  · rw [hnone, List.isEmpty_nil, if_pos rfl, readByte_enter _ c (by decide) (by decide)]
    simp only [accept, enter, readAtFieldStart, hc.not_terminator, hc.not_return, hc.quote,
      hc.escape, hdelimiter, hcomment, hinitial, Bool.false_eq_true, if_false]
    by_cases hspace : c = 32 ∧ d.skipInitialSpace = true
    · simp [hspace.1, hspace.2]
    · have hspace' : ¬ (d.skipInitialSpace = true ∧ c = 32) := fun h => hspace h.symm
      simp [hspace, hspace', push]
  · have hkept : (keptBlanks d s.heldBlanks.toList).isEmpty = false := by
      simpa [List.isEmpty_iff] using hnone
    rw [hkept, if_neg (by simp), if_neg (by simp [hnone]), readByte_enter _ c (by decide) (by decide),
      if_neg (by simp), List.foldl_concat]
    simp [accept, enter, readInField, hc.not_terminator, hc.not_return, hc.escape, hdelimiter,
      hcomment, push]

theorem readAtFieldStart_held (hc : d.Plain c) (hb : d.blankDelimited = false)
    (hne : c ≠ d.delimiter) (hcomment : d.isComment c = false) (s : Splitter) :
    ({ s with heldBlanks := #[] }.enter .fieldStart).readAtFieldStart d c =
      .ok (({ s with heldBlanks := #[c] }.enter .inBlanks).releaseBlanks d) := by
  have hnone : keptBlanks d [] = [] := by simp [keptBlanks]
  have hrelease := readByte_releaseBlanks hc hb hne hcomment
    ({ s with heldBlanks := #[] }.enter .inBlanks)
  simp only [releaseBlanks_eq d ({ s with heldBlanks := #[] }.enter .inBlanks)] at hrelease
  rw [readAtFieldStart_eq]
  simpa [enter, hnone] using hrelease

/-- A byte that is no blank to hold back is read behind the blanks that are released. -/
theorem readByte_released (hc : d.Plain c) (hb : d.blankDelimited = false)
    (hheld : ¬ (Dialect.isSpaceOrTab c = true ∧ c ≠ d.delimiter)) (hs : s.state = .inBlanks) :
    s.readByte d c = (s.releaseBlanks d).readByte d c := by
  rw [readByte_of_not_return d c s (by simp [hs]) (by simp [hs]), accept, hs]
  simp only [readInBlanks, hc.not_terminator, hc.not_return, hb, if_neg hheld, Bool.false_eq_true,
    if_false]
  have hstate : (s.releaseBlanks d).state = .fieldStart ∨ (s.releaseBlanks d).state = .inField := by
    rw [releaseBlanks_eq, enter]
    split_ifs
    · exact .inl rfl
    · exact .inr rfl
  rcases hstate with hstate | hstate
  · rw [readByte_of_not_return d c _ (by simp [hstate]) (by simp [hstate]), accept, hstate,
      if_neg (by simp)]
  · rw [readByte_of_not_return d c _ (by simp [hstate]) (by simp [hstate]), accept, hstate,
      if_pos rfl]

/-- `s` holds back the blanks of a line that `u` has read. -/
structure Waits (d : Dialect) (base shadow s u : Splitter) : Prop where
  state : s.state = .inBlanks
  drafts : base.Drafts [] [] s
  released : if d.blankDelimited then u.state = .betweenFields ∧ shadow.Drafts [] [] u
    else Alike.Open base shadow (s.releaseBlanks d) u

def Together (d : Dialect) (base shadow s u : Splitter) : Prop :=
  Waits d base shadow s u ∨ Alike.Open base shadow s u

theorem Alike.of_drafts (hs : base.Drafts [] [] s) (hu : shadow.Drafts [] [] u)
    (state : SplitState) (p : OpenPart) : Alike base shadow p (s.enter state) (u.enter state) :=
  ⟨rfl, [], [], ⟨fun _ => rfl, fun _ => rfl⟩, hs.enter state, hu.enter state⟩

theorem Waits.readByte (hk : d.KeepsBlanks) (hc : d.Plain c) (h : Waits d base shadow s u) :
    Both (Together d base shadow) (s.readByte d c) (u.readByte d c) := by
  have hreleased := h.released
  by_cases hb : d.blankDelimited = true
  · rw [if_pos hb] at hreleased
    obtain ⟨hu, hdrafts⟩ := hreleased
    rw [readByte_of_not_return d c s (by simp [h.state]) (by simp [h.state]), accept, h.state,
      readByte_of_not_return d c u (by simp [hu]) (by simp [hu]), accept, hu]
    simp only [readInBlanks, readBetweenFields, hc.not_terminator, hc.not_return, hb,
      Bool.false_eq_true, if_false, if_true]
    split_ifs
    · exact .ok (.inr ⟨rfl, .of_drafts h.drafts hdrafts _ _⟩)
    · exact .ok (.inl h)
    · obtain ⟨s', u', hs', hu', hopen⟩ := Alike.readAtFieldStart hc
        (.of_drafts h.drafts hdrafts .fieldStart .fields) rfl
      exact ⟨s', u', hs', hu', .inr hopen⟩
  · rw [if_neg hb] at hreleased
    have hb : d.blankDelimited = false := Bool.eq_false_iff.2 hb
    obtain ⟨s', u', hs', hu', hopen⟩ := Alike.readByte hc hreleased
    by_cases hheld : Dialect.isSpaceOrTab c = true ∧ c ≠ d.delimiter
    · rw [readByte_releaseBlanks hc hb hheld.2 (hk c hheld.1)] at hs'
      refine ⟨{ s with heldBlanks := s.heldBlanks.push c }, u', ?_, hu', .inl ⟨h.state, ?_, ?_⟩⟩
      · rw [readByte_of_not_return d c s (by simp [h.state]) (by simp [h.state]), accept, h.state]
        simp [readInBlanks, hc.not_terminator, hc.not_return, hb, hheld, h.state]
      · exact h.drafts.hold _
      · rw [if_neg (by simp [hb]), Except.ok.inj hs']
        exact hopen
    · exact ⟨s', u', (readByte_released hc hb hheld h.state).trans hs', hu', .inr hopen⟩

theorem Together.readAll (hk : d.KeepsBlanks) (ht : ∀ c ∈ text, d.Plain c)
    (h : Together d base shadow s u) :
    Both (Together d base shadow) (s.readAll d text) (u.readAll d text) := by
  induction text generalizing s u with
  | nil => exact .ok h
  | cons c rest ih =>
    have hc := ht c (by simp)
    have hbyte : Both (Together d base shadow) (s.readByte d c) (u.readByte d c) := by
      rcases h with hwaits | hopen
      · exact hwaits.readByte hk hc
      · obtain ⟨s', u', hs', hu', hopen⟩ := Alike.readByte hc hopen
        exact ⟨s', u', hs', hu', .inr hopen⟩
    rw [readAll_cons, readAll_cons]
    exact hbyte.bind fun _ _ h => ih (fun b hb => ht b (by simp [hb])) h

theorem readByte_alone (hc : d.Plain c) (hu : u.state = .lineStart)
    (hcomment : d.isComment c = false) :
    u.readByte d.alone c =
      if Dialect.isSpaceOrTab c = true ∧ d.blankDelimited = true then .ok (u.enter .betweenFields)
      else (u.enter .fieldStart).readAtFieldStart d c := by
  have hcomment : d.alone.isComment c = false := hcomment
  rw [readByte_of_not_return d.alone c u (by simp [hu]) (by simp [hu]), accept, hu]
  simp only [readAtLineStart, Dialect.alone_skipsLine, hc.alone.not_terminator,
    hc.alone.not_return, hcomment, Bool.false_eq_true, if_false]
  by_cases hboth : Dialect.isSpaceOrTab c = true ∧ d.blankDelimited = true
  · have hb : d.alone.blankDelimited = true := hboth.2
    rw [if_pos hboth.1, if_pos hboth, if_pos hb]
    rfl
  · rw [if_neg hboth]
    by_cases hblank : Dialect.isSpaceOrTab c = true
    · have hb : ¬ d.alone.blankDelimited = true := fun hb => hboth ⟨hblank, hb⟩
      have hempty : ¬ (c ≠ d.alone.delimiter ∧ d.alone.skipEmptyLines = true) := by
        simp [Dialect.alone]
      rw [if_pos hblank, if_neg hb, if_neg hempty]
      rfl
    · rw [if_neg hblank]
      rfl

theorem AtLine.readByte_together (hc : d.Plain c) (hs : s.AtLine d line)
    (hu : u.state = .lineStart) (hskips : d.skipsLine line = false)
    (hcomment : d.isComment c = false) (hdrafts : s.Drafts [] [] s) (hshadow : u.Drafts [] [] u) :
    Both (Together d s u) (s.readByte d c) (u.readByte d.alone c) := by
  have hfield : Both (Alike.Open s u) ((s.enter .fieldStart).readAtFieldStart d c)
      ((u.enter .fieldStart).readAtFieldStart d c) :=
    Alike.readAtFieldStart hc (.of_drafts hdrafts hshadow .fieldStart .fields) rfl
  have hfield : Both (Together d s u) ((s.enter .fieldStart).readAtFieldStart d c)
      ((u.enter .fieldStart).readAtFieldStart d c) := hfield.mono fun _ _ => .inr
  have hskips : d.skipsLine s.fileLines = false := hs.fileLines ▸ hskips
  rw [readByte_alone hc hu hcomment, hs.readByte_eq]
  simp only [readAtLineStart, hskips, hc.not_terminator, hc.not_return, hcomment,
    Bool.false_eq_true, if_false]
  by_cases hblank : Dialect.isSpaceOrTab c = true
  · rw [if_pos hblank]
    by_cases hb : d.blankDelimited = true
    · rw [if_pos hb, if_pos (And.intro hblank hb)]
      split_ifs
      · refine .ok (.inl ⟨rfl, hdrafts.enter _, ?_⟩)
        rw [if_pos hb]
        exact ⟨rfl, hshadow.enter _⟩
      · exact .ok (.inr ⟨rfl, .of_drafts hdrafts hshadow _ _⟩)
    · have hdirect : ¬ (Dialect.isSpaceOrTab c = true ∧ d.blankDelimited = true) :=
        fun h => hb h.2
      rw [if_neg hb, if_neg hdirect]
      split_ifs with hheld
      · obtain ⟨s', u', hs', hu', hopen⟩ := Alike.readAtFieldStart hc
          (.of_drafts (hdrafts.hold #[]) hshadow .fieldStart .fields) rfl
        rw [readAtFieldStart_held hc (Bool.eq_false_iff.2 hb) hheld.1 hcomment s] at hs'
        refine ⟨_, u', rfl, hu', .inl ⟨rfl, (hdrafts.hold _).enter _, ?_⟩⟩
        rw [if_neg hb]
        exact Except.ok.inj hs' ▸ hopen
      · exact hfield
  · rw [if_neg hblank, if_neg fun h => hblank h.1]
    exact hfield

theorem Together.isOpen (h : Together d base shadow s u) : u.state.isOpen = true := by
  rcases h with hwaits | ⟨hopen, halike⟩
  · have hreleased := hwaits.released
    split_ifs at hreleased
    · rw [hreleased.1]
      rfl
    · rw [hreleased.2.state]
      exact hreleased.1
  · rw [halike.state]
    exact hopen

theorem readAll_alone (ht : ∀ c ∈ text, d.Plain c) (hu : u.state.isOpen = true) :
    u.readAll d.alone text = u.readAll d text := by
  induction text generalizing u with
  | nil => rfl
  | cons c rest ih =>
    have hsame : u.readByte d.alone c = u.readByte d c := by
      rw [readByte_of_not_return d.alone c u (by intro h; simp [h, SplitState.isOpen] at hu)
          (by intro h; simp [h, SplitState.isOpen] at hu),
        readByte_of_not_return d c u (by intro h; simp [h, SplitState.isOpen] at hu)
          (by intro h; simp [h, SplitState.isOpen] at hu), accept, accept]
      cases hstate : u.state with
      | lineStart => simp [hstate, SplitState.isOpen] at hu
      | _ => rfl
    obtain ⟨v, hread, hopen, -, -⟩ := readByte_open (ht c (by simp)) hu
    rw [readAll_cons, readAll_cons, hsame, hread, ok_bind, ok_bind]
    exact ih (fun b hb => ht b (by simp [hb])) hopen

theorem passesOver_alone (d : Dialect) (line : Nat) (text : List UInt8) :
    d.alone.passesOver line text = text.head?.any d.isComment := by
  rw [Dialect.passesOver, Dialect.alone_skipsLine, Bool.false_or]
  exact Bool.or_false _

theorem passesOver_eq_false (h : d.passesOver line text = false) :
    d.skipsLine line = false ∧ text.head?.any d.isComment = false := by
  simp only [Dialect.passesOver, Bool.or_eq_false_iff] at h
  exact h.1

/-- A line that is not passed over is built alike by both. -/
theorem AtLine.readAll_together (hk : d.KeepsBlanks) (ht : ∀ c ∈ text, d.Plain c) (hn : text ≠ [])
    (hs : s.AtLine d line) (hu : u.state = .lineStart) (hpass : d.passesOver line text = false)
    (hdrafts : s.Drafts [] [] s) (hshadow : u.Drafts [] [] u) :
    Both (Alike.Open s u) (s.readAll d text) (u.readAll d.alone text) := by
  have htogether : Both (Together d s u) (s.readAll d text) (u.readAll d.alone text) := by
    cases text with
    | nil => exact absurd rfl hn
    | cons c rest =>
      have hrest : ∀ b ∈ rest, d.Plain b := fun b hb => ht b (by simp [hb])
      obtain ⟨hskips, hcomment⟩ := passesOver_eq_false hpass
      rw [readAll_cons, readAll_cons]
      refine (hs.readByte_together (ht c (by simp)) hu hskips hcomment hdrafts hshadow).bind
        fun s' u' h => ?_
      rw [readAll_alone hrest h.isOpen]
      exact h.readAll hk hrest
  obtain ⟨s', u', hs', hu', h⟩ := htogether
  obtain ⟨t, hread, hopen, -, -⟩ := hs.readAll_text ht hn
  rw [hpass, if_neg (by simp)] at hopen
  obtain rfl := Except.ok.inj (hs'.symm.trans hread)
  rcases h with hwaits | halike
  · rw [hwaits.state] at hopen
    cases hopen
  · exact ⟨s', u', hs', hu', halike⟩

end Splitter

end TypedTable.Csv
