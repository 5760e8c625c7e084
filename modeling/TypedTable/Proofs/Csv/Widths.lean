import TypedTable.Proofs.Csv.Filling
import TypedTable.Proofs.Csv.InStep

/-!
# Widths of lines

A line that is no heading is committed with the number of fields that is set, or else with that of
the line before it, whatever happens to lines with too many fields. So the lines that hold data are
of one width, and a read of all columns finds no fault with the width of any but the heading.
-/

set_option autoImplicit false

namespace TypedTable.Csv

namespace Splitter

variable {d : Dialect} {s t : Splitter}

/-! ## What lines keep -/

/-- A property of the committed lines is kept if it is by every line that is committed. -/
theorem kept_lines {P : Splitter → Prop} (hsame : ∀ {s t : Splitter}, s.SameLines t → P s → P t)
    (hpush : ∀ {s : Splitter} {line : Line}, (∀ width ∈ s.requiredFields d, line.fields = width) →
      P s → P { s with lines := s.lines.push line }) : Kept d P where
  enter _ := hsame ⟨rfl, rfl, rfl⟩
  push _ := hsame ⟨rfl, rfl, rfl⟩
  closeField := hsame ⟨rfl, rfl, rfl⟩
  countLine := hsame ⟨rfl, rfl, rfl⟩
  discardLine := hsame ⟨rfl, rfl, rfl⟩
  hold _ := hsame ⟨rfl, rfl, rfl⟩
  endLine {s} h := by
    have hended := endLine_ended d s
    cases he : s.endLine d with
    | ok u =>
      rw [he] at hended
      rcases hended.lines with hu | ⟨line, hw, hu⟩
      · exact hsame hu h
      · exact hsame hu (hpush hw h)
    | error halted =>
      rw [he] at hended
      exact hsame hended h

/-! ## Lines of one width -/

/-- The lines behind the headings have the number of fields that is set; without one, each has as
many as the line before it. -/
structure Even (d : Dialect) (s : Splitter) : Prop where
  set : ∀ width, d.expectedFields = some width →
    ∀ (index : Nat) (h : index < s.lines.size), s.headerLines ≤ index →
      s.lines[index].fields = width
  follows : d.expectedFields = none →
    ∀ (index : Nat) (h : index < s.lines.size), s.headerLines ≤ index → 0 < index →
      s.lines[index].fields = s.lines[index - 1].fields

namespace Even

theorem of_same (hsame : s.SameLines t) (h : s.Even d) : t.Even d := by
  obtain ⟨hheader, -, hlines⟩ := hsame
  refine ⟨fun width hset index hi hl => ?_, fun hnone index hi hl hpos => ?_⟩
  · simp only [hlines]
    exact h.set width hset index (hlines ▸ hi) (hheader ▸ hl)
  · simp only [hlines]
    exact h.follows hnone index (hlines ▸ hi) (hheader ▸ hl) hpos

theorem push {line : Line} (hw : ∀ width ∈ s.requiredFields d, line.fields = width)
    (ha : s.anyWidth = false) (h : s.Even d) :
    ({ s with lines := s.lines.push line } : Splitter).Even d := by
  have hrequired (hl : s.headerLines ≤ s.lines.size) :
      s.requiredFields d = (d.expectedFields <|> s.lines.back?.map (·.fields)) :=
    if_pos ⟨hl, ha⟩
  refine ⟨fun width hset index hi hl => ?_, fun hnone index hi hl hpos => ?_⟩
  · rw [Array.getElem_push]
    split_ifs with hold
    · exact h.set width hset index hold hl
    · have hlast : index = s.lines.size := by
        rw [Array.size_push] at hi
        omega
      refine hw width ?_
      rw [hrequired (hlast ▸ hl), hset]
      rfl
  · rw [Array.getElem_push, Array.getElem_push_lt (by rw [Array.size_push] at hi; omega)]
    split_ifs with hold
    · exact h.follows hnone index hold hl hpos
    · obtain rfl : index = s.lines.size := by
        rw [Array.size_push] at hi
        omega
      refine hw _ ?_
      rw [hrequired hl, hnone, Array.back?_eq_getElem?, Array.getElem?_eq_getElem (by omega)]
      rfl

/-- The lines that are left keep their widths, and the one that is the first now is bound no more
to the line before it. -/
theorem dropLines (h : s.Even d) (count : Nat) : (s.dropLines count).Even d := by
  unfold Splitter.dropLines
  dsimp only
  split_ifs
  · exact h
  · refine ⟨fun width hset index hi hl => ?_, fun hnone index hi hl hpos => ?_⟩
    all_goals
      simp only [Array.size_map, Array.drop_eq_extract, Array.size_extract] at hi hl
      simp only [Array.getElem_map, Array.drop_eq_extract, Array.getElem_extract]
    · exact h.set width hset _ (by omega) (by omega)
    · have hline := h.follows hnone (min count s.lines.size + index) (by omega) (by omega) (by omega)
      have hprevious : min count s.lines.size + index - 1 =
          min count s.lines.size + (index - 1) := by omega
      simpa only [hprevious] using hline

theorem exists_width (h : s.Even d) :
    ∃ width, ∀ (index : Nat) (hi : index < s.lines.size), s.headerLines ≤ index →
      s.lines[index].fields = width := by
  cases hset : d.expectedFields with
  | some width => exact ⟨width, h.set width hset⟩
  | none =>
    by_cases hfirst : s.headerLines < s.lines.size
    · refine ⟨s.lines[s.headerLines].fields, fun index hi hl => ?_⟩
      induction index, hl using Nat.le_induction with
      | base => rfl
      | succ index hl ih =>
        rw [h.follows hset (index + 1) hi (by omega) (by omega)]
        exact ih (by omega)
    · exact ⟨0, fun index hi hl => absurd hi (by omega)⟩

end Even

theorem kept_even (d : Dialect) : Kept d fun s => s.anyWidth = false → s.Even d :=
  kept_lines (fun hsame h ha => (h (hsame.anyWidth.symm.trans ha)).of_same hsame)
    fun hw h ha => (h ha).push hw ha

theorem kept_limits (d : Dialect) (headerLines : Nat) (anyWidth : Bool) :
    Kept d fun s => s.headerLines = headerLines ∧ s.anyWidth = anyWidth :=
  kept_lines (fun hsame h => ⟨hsame.headerLines.trans h.1, hsame.anyWidth.trans h.2⟩) fun _ h => h

end Splitter

open Splitter

/-- The lines of every session are even, unless they may have any width. -/
theorem Session.Reachable.even {d : Dialect} {s : Session} (h : s.Reachable d)
    (ha : s.splitter.anyWidth = false) : s.splitter.Even d := by
  refine (h.keeps ((kept_even d).maintains) (fun headerLines anyWidth => ?_)
    (fun t count ht => ?_) fun t size ht => ⟨rfl, fun ha => ?_⟩).2 ha
  · exact ⟨rfl, fun _ => ⟨fun _ _ _ hi => absurd hi (Nat.not_lt_zero _),
      fun _ _ hi => absurd hi (Nat.not_lt_zero _)⟩⟩
  · refine ⟨rfl, fun ha => (ht.2 ?_).dropLines count⟩
    rw [← (dropLines_others t count).2.2.2.2.1, ha]
  · exact Even.of_same (s := t) ⟨rfl, rfl, rfl⟩ (ht.2 ha)

/-! ## Reads -/

def ReadFault.isRagged : ReadFault → Bool
  | .ragged .. => true
  | _ => false

namespace Matrix

variable {d : Dialect} {plan : MatrixPlan} {s : Splitter}

theorem usableLines_prefix (skipFooter : Bool) (s : Splitter) :
    usableLines skipFooter s <+: s.lines.toList := by
  unfold usableLines
  split
  · exact List.dropLast_prefix _
  · exact List.prefix_rfl

/-- A line that holds data stands behind the headings. -/
theorem mem_dataLines {line : Line} (h : line ∈ dataLines plan s) :
    ∃ (index : Nat) (hi : index < s.lines.size), plan.headerLines ≤ index ∧
      s.lines[index] = line := by
  obtain ⟨index, hi, rfl⟩ := List.mem_iff_getElem.1 h
  have hfront := usableLines_prefix plan.skipFooter s
  have hplace : plan.headerLines + index < (usableLines plan.skipFooter s).length := by
    rw [dataLines, List.length_drop] at hi
    omega
  refine ⟨plan.headerLines + index, Nat.lt_of_lt_of_le hplace hfront.length_le,
    Nat.le_add_right _ _, ?_⟩
  simp only [dataLines, List.getElem_drop]
  rw [hfront.getElem hplace, Array.getElem_toList]

theorem exists_width_of_even (h : s.Even d) (hheader : plan.headerLines = s.headerLines) :
    ∃ width, ∀ line ∈ dataLines plan s, line.fields = width := by
  obtain ⟨width, hw⟩ := h.exists_width
  refine ⟨width, fun line hm => ?_⟩
  obtain ⟨index, hi, hl, rfl⟩ := mem_dataLines hm
  exact hw index hi (hheader ▸ hl)

theorem unragged_ofLines (type : FieldType) {width : Nat} (hcolumns : plan.columns = none)
    (hw : ∀ line ∈ dataLines plan s, line.fields = width) :
    Avoids ReadFault.isRagged (ofLines d type plan s) := by
  by_cases hne : dataLines plan s = []
  · have hof : ofLines d type plan s = .ok (empty type plan.columns _) :=
      if_pos (List.isEmpty_iff.2 hne)
    rw [hof]
    exact .ok _
  · have hof : ofLines d type plan s = _ := if_neg (mt List.isEmpty_iff.1 hne)
    rw [hof]
    refine Avoids.bind ?_ fun _ _ => Avoids.bind
      (.mapM fun line _ => Reading.avoids_row fun _ _ _ => rfl) fun _ _ => .ok _
    change Avoids _ (checkWidth _ (neededFields _ (dataLines plan s)) (dataLines plan s))
    rw [hcolumns, neededFields_even hne hw, checkWidth_even hw]
    exact .ok ()

end Matrix

namespace Reading

variable {s : Settings} {feed : Feed} {splitter : Splitter}

theorem unragged_split (s : Settings) (feed : Feed) : Avoids ReadFault.isRagged (split s feed) := by
  intro fault he
  rcases split_fault he with ⟨text, rfl⟩ | hcontent
  · rfl
  · revert hcontent
    cases fault <;> simp [ReadFault.isContentFault, ReadFault.isRagged]

theorem reachable_of_split (h : split s feed = .ok splitter) :
    (∃ session : Session, session.Reachable s.dialect ∧ session.splitter = splitter) ∧
      splitter.headerLines = s.headerLines ∧ splitter.anyWidth = s.columns.isSome := by
  have hsession : (s.session.tokenizeAll s.dialect feed).session.splitter = splitter := by
    unfold split at h
    dsimp only at h
    split at h
    next => cases h
    next => exact Except.ok.inj h
  have hlimits := (((kept_limits s.dialect s.headerLines s.columns.isSome).maintains none).tokenize
    (s := s.session) feed ⟨rfl, rfl, rfl⟩).1.2
  refine ⟨⟨_, .perform .all feed (.start s.headerLines s.columns.isSome s.chunkSize), hsession⟩, ?_⟩
  rw [← hsession]
  exact hlimits

theorem headingTexts_ragged {d : Dialect} {cols : Nat} {fault : ReadFault}
    (h : headingTexts d splitter cols none = .error fault) :
    ∃ heading, splitter.lines[0]? = some heading ∧
      fault = .ragged heading.number heading.fields cols := by
  unfold headingTexts at h
  cases hfirst : splitter.lines[0]? with
  | none =>
    rw [hfirst] at h
    cases h
  | some heading =>
    rw [hfirst] at h
    dsimp only at h
    split_ifs at h
    exact ⟨heading, rfl, (Except.error.inj h).symm⟩

theorem nameColumns_fault {cols : Nat} {fault : ReadFault}
    (h : nameColumns s splitter cols = .error fault) :
    s.header = true ∧ headingTexts s.dialect splitter cols s.columns = .error fault := by
  unfold nameColumns at h
  split_ifs at h with hnamed
  · refine ⟨hnamed.1, ?_⟩
    cases hn : headingTexts s.dialect splitter cols s.columns with
    | ok names =>
      rw [hn] at h
      cases h
    | error cause =>
      rw [hn] at h
      cases h
      rfl
  · cases h

theorem heading_before_data (hi : splitter.InOrder) (hheader : s.header = true) {heading : Line}
    (hfirst : splitter.lines[0]? = some heading) :
    ∀ data ∈ Matrix.dataLines s.plan splitter, heading.number < data.number := by
  intro data hm
  obtain ⟨hpos, rfl⟩ := Array.getElem?_eq_some_iff.1 hfirst
  obtain ⟨index, hindex, hl, rfl⟩ := Matrix.mem_dataLines hm
  have hone : 1 ≤ index := by simpa [Settings.plan, Settings.headerLines, hheader] using hl
  have hless := List.pairwise_iff_getElem.1 hi.increasing 0 index (by simpa using hpos)
    (by simpa using hindex) hone
  simpa using hless

theorem read_ragged {type : FieldType} {line fields expected : Nat} (hcolumns : s.columns = none)
    (h : read type s (.ok feed) = .error (.ragged line fields expected)) :
    s.header = true ∧ ∃ splitter heading, split s feed = .ok splitter ∧
      splitter.lines[0]? = some heading ∧ line = heading.number ∧ fields = heading.fields ∧
      ∀ data ∈ Matrix.dataLines s.plan splitter, line < data.number := by
  have hbad : ReadFault.isRagged (.ragged line fields expected) = true := rfl
  rcases bind_eq_error_iff.1 h with hcheck | ⟨⟨⟩, -, h⟩
  · obtain ⟨_, -, hcause⟩ := mapError_eq_error_iff.1 hcheck
    cases hcause
  rw [ok_bind, ofFeed] at h
  rcases bind_eq_error_iff.1 h with hsplit | ⟨splitter, hsplit, h⟩
  · cases hbad.symm.trans (unragged_split s feed _ hsplit)
  obtain ⟨⟨session, hreachable, rfl⟩, hheader, hwidth⟩ := reachable_of_split hsplit
  have hnarrow : session.splitter.anyWidth = false := by
    rw [hwidth, hcolumns]
    rfl
  obtain ⟨width, hw⟩ : ∃ width, ∀ line ∈ Matrix.dataLines s.plan session.splitter,
      line.fields = width :=
    Matrix.exists_width_of_even (hreachable.even hnarrow) hheader.symm
  rw [ofSplitter_eq] at h
  rcases bind_eq_error_iff.1 h with hlines | ⟨matrix, -, h⟩
  · cases hbad.symm.trans (Matrix.unragged_ofLines type hcolumns hw _ hlines)
  rcases bind_eq_error_iff.1 h with hnames | ⟨names, -, h⟩
  · obtain ⟨hnamed, hnames⟩ := nameColumns_fault hnames
    rw [hcolumns] at hnames
    obtain ⟨heading, hfirst, hragged⟩ := headingTexts_ragged hnames
    cases hragged
    exact ⟨hnamed, session.splitter, heading, hsplit, hfirst, rfl, rfl,
      heading_before_data (Trails.inOrder hreachable.steady) hnamed hfirst⟩
  · cases h

end Reading

/-- In every state that requests lead to, also after failures, the lines behind the headings are even
unless they may have any width. So a read of all columns never refuses a line with data for its
number of fields, only the heading. -/
theorem even_unless_heading :
    (∀ (d : Dialect) (s : Session), s.Reachable d → s.splitter.anyWidth = false →
      s.splitter.Even d) ∧
    ∀ (type : FieldType) (s : Settings) (feed : Feed) (line fields expected : Nat),
      s.columns = none → read type s (.ok feed) = .error (.ragged line fields expected) →
        s.header = true ∧ ∃ splitter heading, Reading.split s feed = .ok splitter ∧
          splitter.lines[0]? = some heading ∧ line = heading.number ∧ fields = heading.fields ∧
          ∀ data ∈ Matrix.dataLines s.plan splitter, line < data.number :=
  ⟨fun _ _ h ha => h.even ha, fun _ _ _ _ _ _ hcolumns h => Reading.read_ragged hcolumns h⟩

/-- Of the lines behind a wide heading one is short and one is dropped. The first two are given up. -/
theorem even_unless_wide_heading :
    let d : Dialect := { expectedFields := some 2, onBadLines := .warn }
    let s : Settings := { dialect := d, header := true, warnForMissing := true }
    let feed : Feed := .memory (CellValue.bytes "a,b,c\n1\n2,3,4\n5,6\n7,8\n")
    let p := Request.all.perform d feed s.session
    let q := (Request.drop 2).perform d p.feed p.session
    p.session.splitter.lines.map (·.fields) = #[3, 2, 2, 2] ∧
    q.session.splitter.lines.size = 2 ∧ q.session.splitter.Even d ∧
    read (.scalar .int) s (.ok feed) = .error (.ragged 1 3 2) ∧
      s.header = true ∧ ∃ splitter heading, Reading.split s feed = .ok splitter ∧
        splitter.lines[0]? = some heading ∧ 1 = heading.number ∧ 3 = heading.fields ∧
        ∀ data ∈ Matrix.dataLines s.plan splitter, 1 < data.number := by
  intro d s feed p q
  have hreachable : q.session.Reachable d := .perform _ _ (.perform _ _ (.start 1 false 262144))
  have hread : read (.scalar .int) s (.ok feed) = .error (.ragged 1 3 2) := by
    have hfault : (match read (.scalar .int) s (.ok feed) with
        | .ok _ => none
        | .error fault => some fault) = some (.ragged 1 3 2) := by decide +kernel
    split at hfault
    next => cases hfault
    next hread => rw [hread, Option.some.inj hfault]
  exact ⟨by decide +kernel, by decide +kernel,
    even_unless_heading.1 d q.session hreachable (by decide +kernel), hread,
    even_unless_heading.2 _ s feed 1 3 2 rfl hread⟩

end TypedTable.Csv
