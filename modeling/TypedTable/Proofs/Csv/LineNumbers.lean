import TypedTable.Proofs.Csv.WholeLines

/-!
# Physical lines

Every line feed of a text without quotes ends a line and counts it. The lines that are committed are
those that are neither skipped nor comments nor blank ones to skip, unless they have too many
fields; they keep their numbers and, up to empty fields that fill them up, the fields that they have
on their own.
-/

set_option autoImplicit false

namespace TypedTable.Csv

namespace Dialect

/-- Whether a line is a comment. A line feed ends the line whatever else it is. -/
def isCommentLine (d : Dialect) (line : List UInt8) : Bool :=
  line.head?.any fun c => c != 10 && d.isComment c

def splitAlone (d : Dialect) (line : List UInt8) : List (List (List UInt8)) :=
  ((Session.start 0 true 1).tokenizeAll d.alone (.memory line)).session.splitter.rows

variable {d : Dialect} {text : List UInt8}

theorem isCommentLine_feed (ht : 10 ∉ text) :
    d.isCommentLine (text ++ [10]) = text.head?.any d.isComment := by
  cases text with
  | nil => rfl
  | cons c rest =>
    have hc : (c != 10) = true := by
      rw [bne_iff_ne]
      rintro rfl
      exact ht (by simp)
    show (c != 10 && d.isComment c) = d.isComment c
    rw [hc, Bool.true_and]

theorem passesOver_feed (hk : d.KeepsBlanks) (ht : 10 ∉ text) (line : Nat) :
    d.passesOver line text = false ↔
      d.skipsLine line = false ∧ d.isCommentLine (text ++ [10]) = false ∧
        ¬ (d.skipEmptyLines = true ∧ d.isBlankLine (text ++ [10]) = true) := by
  rw [isCommentLine_feed ht, isBlankLine_feed, isBlankLine_text hk ht, passesOver,
    Bool.or_eq_false_iff, Bool.or_eq_false_iff, and_assoc]
  simp

theorem splitAlone_feed (hk : d.KeepsBlanks) (hterminator : d.lineTerminator = none)
    (ht : ∀ c ∈ text, d.Plain c) (hcomment : text.head?.any d.isComment = false)
    (hmark : ¬ byteOrderMark <+: text ++ [10]) :
    d.splitAlone (text ++ [10]) = [d.fieldsOf text] := by
  have hfeed : d.alone.isTerminator 10 = true := by
    simp [isTerminator, alone, hterminator]
  have hk : d.alone.KeepsBlanks := hk
  obtain ⟨t, hcompletes⟩ := (Splitter.atLine_start d.alone 0 true).completes hk hfeed
    (fun c hc => (ht c hc).alone) ((Splitter.passesOver_alone d 0 text).trans hcomment)
    (Splitter.drafts_start 0 true).keeps
  obtain ⟨hread, hrows⟩ := hcompletes.commit rfl
  have hfailures : (Feed.memory (text ++ [10])).failures = 0 := rfl
  have hsplit := Session.tokenizeAll_start d.alone 0 true 1 hfailures
  have hbytes : Session.withoutMark (Feed.memory (text ++ [10])).content = text ++ [10] :=
    if_neg hmark
  rw [hbytes, hread, ok_bind] at hsplit
  rw [splitAlone, (Prod.mk.inj hsplit).2]
  exact hrows

end Dialect

/-! ## What is committed of the lines -/

section Accounted

variable (d : Dialect) (headerLines : Nat) (anyWidth : Bool)

structure Accounted (texts : List (List UInt8)) (records : List (Nat × List (List UInt8))) :
    Prop where
  increasing : (records.map (·.1)).Pairwise (· < ·)
  fields : ∀ record ∈ records, ∃ index text count, texts[index]? = some text ∧
    record.1 = index + 1 ∧ d.passesOver index text = false ∧
    record.2 = d.fieldsOf text ++ List.replicate count []
  committed : ∀ index text, texts[index]? = some text →
    (index + 1 ∈ records.map (·.1) ↔ d.passesOver index text = false ∧
      ∀ width ∈ d.requiredWidth headerLines anyWidth (records.filter (·.1 ≤ index)),
        (d.fieldsOf text).length ≤ width)

variable {d headerLines anyWidth} {texts : List (List UInt8)} {text : List UInt8}
  {records more : List (Nat × List (List UInt8))}

theorem accounted_nil : Accounted d headerLines anyWidth [] [] where
  increasing := List.Pairwise.nil
  fields := by simp
  committed := by simp

theorem Accounted.number_le (h : Accounted d headerLines anyWidth texts records)
    {record : Nat × List (List UInt8)} (hm : record ∈ records) : record.1 ≤ texts.length := by
  obtain ⟨index, text, -, hplace, hnumber, -, -⟩ := h.fields record hm
  rw [hnumber]
  exact (List.getElem?_eq_some_iff.1 hplace).1

theorem Accounted.filter_eq (h : Accounted d headerLines anyWidth texts records) :
    records.filter (·.1 ≤ texts.length) = records :=
  List.filter_eq_self.2 fun _ hm => decide_eq_true (h.number_le hm)

theorem Accounted.next_not_mem (h : Accounted d headerLines anyWidth texts records) :
    texts.length + 1 ∉ records.map (·.1) := by
  intro hn
  obtain ⟨record, hm, hnumber⟩ := List.mem_map.1 hn
  have := h.number_le hm
  omega

section Later

variable {index number : Nat} (hmore : ∀ record ∈ more, record.1 = number)

include hmore

theorem filter_of_later (hindex : index < number) : more.filter (·.1 ≤ index) = [] := by
  rw [List.filter_eq_nil_iff]
  intro record hm
  rw [hmore record hm, decide_eq_true_eq]
  exact Nat.not_le.2 hindex

theorem not_mem_of_later (hindex : index < number) : index ∉ more.map (·.1) := by
  intro hn
  obtain ⟨record, hm, rfl⟩ := List.mem_map.1 hn
  exact Nat.ne_of_lt hindex (hmore record hm)

theorem mem_of_later : number ∈ more.map (·.1) ↔ more ≠ [] := by
  constructor
  · rintro hn rfl
    simp at hn
  · intro hn
    obtain ⟨record, hm⟩ := List.exists_mem_of_ne_nil _ hn
    exact List.mem_map.2 ⟨record, hm, hmore record hm⟩

end Later

theorem Accounted.snoc (h : Accounted d headerLines anyWidth texts records)
    (hmore : ∀ record ∈ more, record.1 = texts.length + 1 ∧
      d.passesOver texts.length text = false ∧
      ∃ count, record.2 = d.fieldsOf text ++ List.replicate count [])
    (hlength : more.length ≤ 1)
    (hcommitted : more ≠ [] ↔ d.passesOver texts.length text = false ∧
      ∀ width ∈ d.requiredWidth headerLines anyWidth records, (d.fieldsOf text).length ≤ width) :
    Accounted d headerLines anyWidth (texts ++ [text]) (records ++ more) := by
  have hnumber : ∀ record ∈ more, record.1 = texts.length + 1 :=
    fun record hm => (hmore record hm).1
  constructor
  case increasing =>
    rw [List.map_append, List.pairwise_append]
    refine ⟨h.increasing, ?_, ?_⟩
    · match more, hlength with
      | [], _ => exact List.Pairwise.nil
      | [record], _ => exact List.pairwise_singleton _ _
    · intro number hn later hl
      obtain ⟨record, hm, rfl⟩ := List.mem_map.1 hn
      obtain ⟨other, ho, rfl⟩ := List.mem_map.1 hl
      rw [hnumber other ho]
      exact Nat.lt_succ_of_le (h.number_le hm)
  case fields =>
    intro record hm
    rcases List.mem_append.1 hm with hold | hnew
    · obtain ⟨index, old, count, hplace, hrecord⟩ := h.fields record hold
      refine ⟨index, old, count, ?_, hrecord⟩
      rw [List.getElem?_append_left (List.getElem?_eq_some_iff.1 hplace).1, hplace]
    · obtain ⟨hnumber, hpass, count, hfields⟩ := hmore record hnew
      exact ⟨texts.length, text, count, List.getElem?_concat_length, hnumber, hpass, hfields⟩
  case committed =>
    intro index line hline
    rw [List.filter_append, List.map_append, List.mem_append]
    rcases Nat.lt_trichotomy index texts.length with hlt | rfl | hgt
    · -- an earlier line: the new record is behind it
      rw [List.getElem?_append_left hlt] at hline
      rw [filter_of_later hnumber (Nat.lt_succ_of_lt hlt), List.append_nil,
        or_iff_left (not_mem_of_later hnumber (Nat.succ_lt_succ hlt))]
      exact h.committed index line hline
    · -- the new line: the earlier records are before it
      obtain rfl : text = line := by simpa using hline
      rw [filter_of_later hnumber (Nat.lt_succ_self _), List.append_nil, h.filter_eq,
        or_iff_right h.next_not_mem, mem_of_later hnumber, hcommitted]
    · rw [List.getElem?_eq_none (by simp; omega)] at hline
      cases hline

def OneRow (d : Dialect) (texts : List (List UInt8)) : Prop :=
  ∀ index text, texts[index]? = some text → d.passesOver index text = false →
    d.splitAlone (text ++ [10]) = [d.fieldsOf text]

theorem Accounted.exists_own (h : Accounted d headerLines anyWidth texts records)
    (halone : OneRow d texts) {record : Nat × List (List UInt8)} (hm : record ∈ records) :
    ∃ index line own count, (texts.map (· ++ [10]))[index]? = some line ∧ record.1 = index + 1 ∧
      d.splitAlone line = [own] ∧ record.2 = own ++ List.replicate count [] := by
  obtain ⟨index, text, count, htext, hnumber, hpass, hfields⟩ := h.fields record hm
  refine ⟨index, text ++ [10], d.fieldsOf text, count, ?_, hnumber, ?_, hfields⟩
  · rw [List.getElem?_map, htext]
    rfl
  · exact halone index text htext hpass

theorem Accounted.committed_iff (h : Accounted d headerLines anyWidth texts records)
    (halone : OneRow d texts) (hk : d.KeepsBlanks) (hfeed : ∀ text ∈ texts, 10 ∉ text) {index : Nat}
    {line : List UInt8} (hline : (texts.map (· ++ [10]))[index]? = some line) :
    index + 1 ∈ records.map (·.1) ↔ d.skipsLine index = false ∧ d.isCommentLine line = false ∧
      ¬ (d.skipEmptyLines = true ∧ d.isBlankLine line = true) ∧
      ∀ own width, d.splitAlone line = [own] →
        d.requiredWidth headerLines anyWidth (records.filter (·.1 ≤ index)) = some width →
        own.length ≤ width := by
  rw [List.getElem?_map, Option.map_eq_some_iff] at hline
  obtain ⟨text, htext, rfl⟩ := hline
  have hpasses := Dialect.passesOver_feed hk (hfeed text (List.mem_of_getElem? htext)) index
  rw [h.committed index text htext]
  constructor
  · rintro ⟨hpass, hfits⟩
    obtain ⟨hskips, hcomment, hblank⟩ := hpasses.1 hpass
    refine ⟨hskips, hcomment, hblank, fun own width hown hwidth => ?_⟩
    obtain rfl : d.fieldsOf text = own := by simpa [halone index text htext hpass] using hown
    exact hfits width hwidth
  · rintro ⟨hskips, hcomment, hblank, hfits⟩
    have hpass := hpasses.2 ⟨hskips, hcomment, hblank⟩
    exact ⟨hpass, fun width hwidth => hfits _ width (halone index text htext hpass) hwidth⟩

end Accounted

namespace Splitter

variable {d : Dialect} {base s t : Splitter} {text : List UInt8} {line headerLines : Nat}
  {anyWidth : Bool} {fields : List (List UInt8)} {texts all : List (List UInt8)}

/-- A line with these fields came to at most one record: none if it is wider than it may be, else
one that is filled up. -/
structure Recorded (required : Option Nat) (base : Splitter) (fields : List (List UInt8))
    (t : Splitter) : Prop where
  headerLines : t.headerLines = base.headerLines
  anyWidth : t.anyWidth = base.anyWidth
  records : ∃ more, t.Keeps (base.records ++ more) [] [] ∧ more.length ≤ 1 ∧
    (∀ record ∈ more, record.1 = base.fileLines + 1 ∧
      ∃ count, record.2 = fields ++ List.replicate count []) ∧
    (more ≠ [] ↔ ∀ width ∈ required, fields.length ≤ width)

theorem Drafts.recorded_commit {required : Option Nat} {count : Nat}
    (h : base.Drafts (fields ++ List.replicate count []) [] s)
    (hfits : ∀ width ∈ required, fields.length ≤ width) :
    Recorded required base fields s.commitLine where
  headerLines := h.headerLines
  anyWidth := h.anyWidth
  records := ⟨[(base.fileLines + 1, _)], h.commitLine, by simp, by simp, by simpa using hfits⟩

theorem Drafts.recorded_discard {width : Nat} (h : base.Drafts fields [] s)
    (hwide : width < fields.length) (warnings : Array Warning) :
    Recorded (some width) base fields { s.countLine.discardLine with warnings := warnings } where
  headerLines := h.headerLines
  anyWidth := h.anyWidth
  records := by
    refine ⟨[], ?_, by simp, by simp, by simp [Nat.not_le.2 hwide]⟩
    rw [List.append_nil]
    exact h.discardLine.warn warnings

/-- What becomes of a line with these fields, if a line with too many is dropped. A short line fails
if there is no room to fill it up. -/
theorem Drafts.endLine (h : base.Drafts fields [] s) (hskips : s.state.isSkipping = false)
    (hpolicy : d.onBadLines ≠ .error) :
    Yields (Recorded (d.requiredWidth base.headerLines base.anyWidth base.records) base fields)
      (fun halted => halted.left = s ∧ ∃ width, s.requiredFields d = some width ∧
        fields.length < width ∧ s.stream.checkRoom (width - fields.length) = .error halted.fault)
      (s.endLine d) := by
  have hwhole : base.Drafts (fields ++ List.replicate 0 []) [] s := by simpa using h
  rw [Splitter.endLine, if_neg (by simp [hskips]), h.requiredFields, h.openFields]
  cases hrequired : d.requiredWidth base.headerLines base.anyWidth base.records with
  | none => exact hwhole.recorded_commit (by simp)
  | some width =>
    dsimp only
    split_ifs with hwide
    · rw [rejectLine]
      cases hbad : d.onBadLines with
      | error => exact absurd hbad hpolicy
      | warn => exact h.recorded_discard hwide _
      | skip => exact h.recorded_discard hwide s.warnings
    · have hfits : ∀ other ∈ some width, fields.length ≤ other := by
        simpa using Nat.not_lt.1 hwide
      rw [padLine]
      split_ifs with hfull
      · exact hwhole.recorded_commit hfits
      · cases hroom : s.stream.checkRoom (width - fields.length) with
        | ok u => exact (h.closeFields (width - fields.length)).recorded_commit hfits
        | error fault => exact ⟨rfl, width, rfl, by omega, hroom⟩

/-- The line under construction is shorter than it has to be, and there is no room for the empty
fields that it would be filled up with. -/
def LacksRoom (d : Dialect) (texts : List (List UInt8)) (halted : Halted Splitter) : Prop :=
  ∃ text width, texts[halted.left.fileLines]? = some text ∧
    d.passesOver halted.left.fileLines text = false ∧
    halted.left.requiredFields d = some width ∧ (d.fieldsOf text).length < width ∧
    halted.left.stream.checkRoom (width - (d.fieldsOf text).length) = .error halted.fault

structure Counts (d : Dialect) (headerLines : Nat) (anyWidth : Bool) (texts : List (List UInt8))
    (s : Splitter) : Prop where
  atLine : s.AtLine d texts.length
  header : s.headerLines = headerLines
  width : s.anyWidth = anyWidth
  keeps : s.Keeps s.records [] []
  accounted : Accounted d headerLines anyWidth texts s.records

section Lines

variable (hk : d.KeepsBlanks) (hterminator : d.lineTerminator = none)
  (hpolicy : d.onBadLines ≠ .error)

include hk hterminator hpolicy

theorem Counts.readLine (hquote : d.isQuote 10 = false) (ht : ∀ c ∈ text, d.Plain c)
    (hplace : all[texts.length]? = some text) (h : Counts d headerLines anyWidth texts s) :
    Yields (Counts d headerLines anyWidth (texts ++ [text])) (LacksRoom d all)
      (s.readAll d (text ++ [10])) := by
  have hfeed : d.isTerminator 10 = true := by simp [Dialect.isTerminator, hterminator]
  have hlength : (texts ++ [text]).length = texts.length + 1 := by simp
  cases hpass : d.passesOver texts.length text with
  | true =>
    obtain ⟨u, hread, hpassed⟩ := h.atLine.readAll_passes hfeed hquote ht hpass h.keeps
    have hrecords := hpassed.keeps.records_eq
    rw [hread]
    refine ⟨hlength ▸ hpassed.atLine h.atLine, hpassed.headerLines.trans h.header,
      hpassed.anyWidth.trans h.width, hrecords ▸ hpassed.keeps, ?_⟩
    have hsnoc : Accounted d headerLines anyWidth (texts ++ [text]) (s.records ++ []) :=
      h.accounted.snoc (by simp) (by simp) (by simp [hpass])
    rwa [List.append_nil, ← hrecords] at hsnoc
  | false =>
    obtain ⟨t, hcompletes⟩ := h.atLine.completes hk hfeed ht hpass h.keeps
    have hended := hcompletes.drafts.endLine hcompletes.skipping hpolicy
    rw [hcompletes.feed, endLineTo]
    cases hline : t.endLine d with
    -- the only way to fail is a line that cannot be filled up
    | error halted =>
      rw [hline] at hended
      obtain ⟨rfl, width, hrequired, hshort, hroom⟩ := hended
      have hlines : halted.left.fileLines = texts.length :=
        hcompletes.drafts.fileLines.trans h.atLine.fileLines
      exact ⟨text, width, hlines ▸ hplace, hlines ▸ hpass, hrequired, hshort, hroom⟩
    | ok u =>
      rw [hline] at hended
      obtain ⟨hheader, hwidth, more, hkeeps, hone, hmore, hcommitted⟩ := hended
      have hrecords := (hkeeps.enter .lineStart).records_eq
      rw [h.header, h.width] at hcommitted
      refine ⟨hlength ▸ hcompletes.atLine h.atLine hline, hheader.trans h.header,
        hwidth.trans h.width, hrecords ▸ hkeeps.enter .lineStart, ?_⟩
      show Accounted d headerLines anyWidth (texts ++ [text]) (u.enter .lineStart).records
      rw [hrecords]
      refine h.accounted.snoc (fun record hm => ?_) hone (by rw [hcommitted, hpass]; simp)
      obtain ⟨hnumber, hfields⟩ := hmore record hm
      exact ⟨h.atLine.fileLines ▸ hnumber, hpass, hfields⟩

/-- All lines of a text are accounted for, unless there is no room. -/
theorem Counts.readAll {later : List (List UInt8)} (hquote : later ≠ [] → d.isQuote 10 = false)
    (ht : ∀ text ∈ later, ∀ c ∈ text, d.Plain c) (hall : all = texts ++ later)
    (h : Counts d headerLines anyWidth texts s) :
    Yields (Counts d headerLines anyWidth all) (LacksRoom d all)
      (s.readAll d (LineEnding.feed.write later)) := by
  induction later generalizing texts s with
  | nil =>
    rw [List.append_nil] at hall
    exact hall ▸ h
  | cons text later ih =>
    have hplace : all[texts.length]? = some text := by simp [hall]
    rw [write_feed_cons, readAll_append _ (text ++ [10])]
    refine (h.readLine hk hterminator hpolicy (hquote (by simp)) (ht text (by simp)) hplace).bind
      fun t ht' => ?_
    exact ih (fun _ => hquote (by simp)) (fun text hm => ht text (by simp [hm])) (by simp [hall])
      ht'

end Lines

end Splitter

namespace Session

theorem count_write {texts : List (List UInt8)} (hfeed : ∀ text ∈ texts, 10 ∉ text) :
    (LineEnding.feed.write texts).count 10 = texts.length := by
  induction texts with
  | nil => rfl
  | cons text texts ih =>
    rw [write_feed_cons, List.count_append, List.count_append,
      ih fun text hm => hfeed text (by simp [hm]),
      List.count_eq_zero_of_not_mem (hfeed text (by simp)), List.length_cons]
    simp [Nat.add_comm]

theorem oneRow_write {d : Dialect} {texts : List (List UInt8)} {content : List UInt8}
    (hk : d.KeepsBlanks) (hterminator : d.lineTerminator = none)
    (hcontent : content = LineEnding.feed.write texts) (ht : ∀ text ∈ texts, ∀ c ∈ text, d.Plain c)
    (hmark : ¬ byteOrderMark <:+: content) : OneRow d texts := by
  intro index text htext hpass
  have hm := List.mem_of_getElem? htext
  refine Dialect.splitAlone_feed hk hterminator (ht text hm)
    (Splitter.passesOver_eq_false hpass).2 fun hbegins => hmark (hbegins.isInfix.trans ?_)
  obtain ⟨before, after, rfl⟩ := List.append_of_mem hm
  rw [hcontent, LineEnding.write, List.flatMap_append, List.flatMap_cons]
  exact List.infix_append' _ _ _

theorem exists_feed_lines {content : List UInt8}
    (hend : content = [] ∨ content.getLast? = some 10) :
    ∃ texts : List (List UInt8),
      content = LineEnding.feed.write texts ∧ ∀ text ∈ texts, 10 ∉ text := by
  obtain ⟨texts, last, rfl, hfeed, hlast⟩ := exists_lines content
  have hn : last = [] := by
    rcases hend with hnil | hten
    · exact (List.append_eq_nil_iff.1 hnil).2
    · by_contra hn
      rw [List.getLast?_append_of_ne_nil _ hn] at hten
      exact hlast (List.mem_of_getLast? hten)
  subst hn
  exact ⟨texts, List.append_nil _, hfeed⟩

theorem tokenizeAll_counts {d : Dialect} (hterminator : d.lineTerminator = none)
    (hblanks : d.KeepsBlanks) (hpolicy : d.onBadLines ≠ .error) (headerLines : Nat)
    (anyWidth : Bool) (chunkSize : Nat) {feed : Feed} {texts : List (List UInt8)}
    (hfailures : feed.failures = 0) (hcontent : feed.content = LineEnding.feed.write texts)
    (hquote : texts ≠ [] → d.isQuote 10 = false) (ht : ∀ text ∈ texts, ∀ c ∈ text, d.Plain c)
    (hmark : ¬ byteOrderMark <+: feed.content) :
    let p := (Session.start headerLines anyWidth chunkSize).tokenizeAll d feed
    (p.fault = none ∧
      ∃ t, Splitter.Counts d headerLines anyWidth texts t ∧
        p.session.splitter = t.enter .finished) ∨
    ∃ halted, Splitter.LacksRoom d texts halted ∧ p.fault = some halted.fault ∧
      p.session.splitter = halted.left := by
  intro p
  have hp : p.outcome = _ := tokenizeAll_start d headerLines anyWidth chunkSize hfailures
  have hstart : Splitter.Counts d headerLines anyWidth []
      { headerLines := headerLines, anyWidth := anyWidth } :=
    ⟨Splitter.atLine_start d headerLines anyWidth, rfl, rfl,
      (Splitter.drafts_start headerLines anyWidth).keeps, accounted_nil⟩
  have hrun := hstart.readAll hblanks hterminator hpolicy hquote ht rfl
  rw [withoutMark, if_neg hmark, hcontent] at hp
  cases hread : Splitter.readAll d (LineEnding.feed.write texts)
      { headerLines := headerLines, anyWidth := anyWidth } with
  | error halted =>
    rw [hread] at hrun hp
    obtain ⟨hfault, hleft⟩ := Prod.mk.inj hp
    exact .inr ⟨halted, hrun, hfault, hleft⟩
  | ok t =>
    rw [hread] at hrun hp
    rw [ok_bind, hrun.atLine.finish_eq] at hp
    obtain ⟨hfault, hleft⟩ := Prod.mk.inj hp
    exact .inl ⟨hfault, t, hrun, hleft⟩

/-- Every line feed of a text without quotes is counted. A line is committed, under its number, unless
it is skipped, a comment, a blank one to skip or too wide for the line before it; it has the fields
that it has on its own and behind them empty ones. The request fails only at a line that would be
committed but is too short, if there is no room for the empty fields that it would need. -/
theorem tokenizeAll_lines (d : Dialect) (hterminator : d.lineTerminator = none)
    (hblanks : d.KeepsBlanks) (hpolicy : d.onBadLines ≠ .error) (headerLines : Nat)
    (anyWidth : Bool) (chunkSize : Nat) (feed : Feed) (hfailures : feed.failures = 0)
    (hplain : ∀ c ∈ feed.content, c ≠ 13 ∧ d.isQuote c = false ∧ d.isEscape c = false)
    (hmark : ¬ byteOrderMark <:+: feed.content)
    (hend : feed.content = [] ∨ feed.content.getLast? = some 10) :
    let p := (Session.start headerLines anyWidth chunkSize).tokenizeAll d feed
    let s := p.session.splitter
    let lines := physicalLines feed.content
    (p.fault = none ∧ s.fileLines = feed.content.count 10 ∧
      (s.records.map (·.1)).Pairwise (· < ·) ∧
      (∀ record ∈ s.records, ∃ index line own count, lines[index]? = some line ∧
        record.1 = index + 1 ∧ d.splitAlone line = [own] ∧
        record.2 = own ++ List.replicate count []) ∧
      ∀ index line, lines[index]? = some line →
        (index + 1 ∈ s.records.map (·.1) ↔
          d.skipsLine index = false ∧ d.isCommentLine line = false ∧
          ¬ (d.skipEmptyLines = true ∧ d.isBlankLine line = true) ∧
          ∀ own width, d.splitAlone line = [own] →
            d.requiredWidth headerLines anyWidth (s.records.filter (·.1 ≤ index)) = some width →
            own.length ≤ width)) ∨
    ∃ fault line own width, p.fault = some fault ∧ lines[s.fileLines]? = some line ∧
      (d.skipsLine s.fileLines = false ∧ d.isCommentLine line = false ∧
        ¬ (d.skipEmptyLines = true ∧ d.isBlankLine line = true)) ∧
      d.splitAlone line = [own] ∧ s.requiredFields d = some width ∧ own.length < width ∧
      s.stream.checkRoom (width - own.length) = .error fault := by
  intro p s lines
  obtain ⟨texts, hcontent, hfeed⟩ := exists_feed_lines hend
  have hten : 10 ∉ ([] : List UInt8) := List.not_mem_nil
  obtain ⟨htexts, -, hquote⟩ := Dialect.plain_of_write hterminator
    (hcontent.trans (List.append_nil _).symm) hfeed hten hplain
  have hlines : lines = texts.map (· ++ [10]) := by
    have hwritten := physicalLines_write hfeed hten
    rwa [List.append_nil, if_pos rfl, List.append_nil, ← hcontent] at hwritten
  have halone := oneRow_write hblanks hterminator hcontent htexts hmark
  rw [hlines]
  rcases tokenizeAll_counts hterminator hblanks hpolicy headerLines anyWidth chunkSize hfailures
      hcontent hquote htexts (fun h => hmark h.isInfix) with
    ⟨hfault, t, hcounts, ht⟩ | ⟨halted, ⟨text, width, htext, hpass, hlacks⟩, hfault, hleft⟩
  · have hs : s = t.enter .finished := ht
    have hrecords : s.records = t.records := by
      rw [hs]
      rfl
    rw [hrecords]
    refine .inl ⟨hfault, ?_, hcounts.accounted.increasing,
      fun record => hcounts.accounted.exists_own halone,
      fun index line => hcounts.accounted.committed_iff halone hblanks hfeed⟩
    rw [hs, hcontent, count_write hfeed]
    exact hcounts.atLine.fileLines
  · have hs : s = halted.left := hleft
    rw [← hs] at htext hpass hlacks
    have hpasses := Dialect.passesOver_feed hblanks (hfeed text (List.mem_of_getElem? htext))
      s.fileLines
    refine .inr ⟨halted.fault, text ++ [10], d.fieldsOf text, width, hfault, ?_, hpasses.1 hpass,
      halone _ text htext hpass, hlacks⟩
    rw [List.getElem?_map, htext]
    rfl

/-- A skipped line, a comment and a blank line stand before two lines that are committed, the second
filled up, and one that is too wide. -/
theorem tokenizeAll_lines_filled_up :
    let d : Dialect := { skippedFirstLines := 1, skipEmptyLines := true, onBadLines := .warn }
    let content : List UInt8 := [120, 10, 35, 10, 32, 10, 97, 44, 98, 10, 99, 10, 44, 44, 10]
    let p := (Session.start 0 false 4).tokenizeAll d (.memory content)
    p.session.splitter.records = [(4, [[97], [98]]), (5, [[99], []])] ∧
      p.session.splitter.fileLines = content.count 10 ∧
      ∀ record ∈ p.session.splitter.records, ∃ index line own count,
        (physicalLines content)[index]? = some line ∧ record.1 = index + 1 ∧
          d.splitAlone line = [own] ∧ record.2 = own ++ List.replicate count [] := by
  intro d content p
  have hblanks : d.KeepsBlanks := Dialect.keepsBlanks_of_eq_false rfl rfl
  have hfault : p.fault = none := by decide +kernel
  rcases tokenizeAll_lines d rfl hblanks (by decide) 0 false 4 (.memory content) rfl
      (by decide +kernel) (by decide +kernel) (by decide +kernel) with
    ⟨-, hcount, -, hfields, -⟩ | ⟨fault, line, own, width, hhalted, -⟩
  · exact ⟨by decide +kernel, hcount, hfields⟩
  · rw [show p.fault = _ from hhalted] at hfault
    cases hfault

/-- A line cannot be filled up to more fields than a table has room for. -/
theorem tokenizeAll_no_room :
    let d : Dialect := { expectedFields := some (wordLimit - 1), onBadLines := .warn }
    let feed := Feed.memory [97, 10]
    let p := (Session.start 0 false 1).tokenizeAll d feed
    (d.lineTerminator = none ∧ d.KeepsBlanks ∧ d.onBadLines ≠ .error ∧ feed.failures = 0 ∧
      (∀ c ∈ feed.content, c ≠ 13 ∧ d.isQuote c = false ∧ d.isEscape c = false) ∧
      ¬ byteOrderMark <:+: feed.content ∧ feed.content.getLast? = some 10) ∧
      p.fault = some (.overflow .fieldTable) ∧ p.session.splitter.fileLines = 0 := by
  have hblanks : Dialect.KeepsBlanks
      { expectedFields := some (wordLimit - 1), onBadLines := .warn } :=
    Dialect.keepsBlanks_of_eq_false rfl rfl
  refine ⟨⟨rfl, hblanks, by decide, rfl, ?_, ?_, rfl⟩, ?_, ?_⟩ <;> decide +kernel

end Session

end TypedTable.Csv
