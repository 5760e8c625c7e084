import TypedTable.Proofs.Csv.WholeLines

/-!
# Lines of words

Where any run of blanks is one delimiter, a line without quotes and comments is split into its
words. What the splitter has of a line is its finished words and the bytes of the word it is in,
and a blank finishes that word if there is one.
-/

set_option autoImplicit false

namespace TypedTable.Csv

/-! ## The words of a line -/

def isGap (c : UInt8) : Bool := c == 10 || Dialect.isSpaceOrTab c

def words (line : List UInt8) : List (List UInt8) := (line.splitOnP isGap).filter (· ≠ [])

section Words

variable {c : UInt8} {line run rest word : List UInt8}

@[simp] theorem words_nil : words [] = [] := by simp [words]

theorem words_gap (hc : isGap c = true) (line rest : List UInt8) :
    words (line ++ c :: rest) = words line ++ words rest := by
  rw [words, List.splitOnP_append_cons line rest hc, List.filter_append]
  rfl

theorem words_run (hn : run ≠ []) (hrun : ∀ c ∈ run, isGap c = false) : words run = [run] := by
  rw [words, List.splitOnP_eq_singleton hrun]
  simp [hn]

theorem words_feed (text : List UInt8) : words (text ++ [10]) = words text := by
  rw [words_gap rfl text [], words_nil, List.append_nil]

theorem ne_nil_of_mem_words (h : word ∈ words line) : word ≠ [] := by
  simpa using (List.mem_filter.1 h).2

theorem flatten_words (line : List UInt8) :
    (words line).flatten = line.filter fun c => !isGap c := by
  rw [words, List.flatten_filter_ne_nil]
  induction line with
  | nil => simp
  | cons c rest ih =>
    rw [List.splitOnP_cons_eq_if_modifyHead]
    cases hc : isGap c with
    | true => simp [hc, ih]
    | false =>
      obtain ⟨first, later, hsplit⟩ := List.exists_cons_of_ne_nil (List.splitOnP_ne_nil isGap rest)
      rw [hsplit] at ih
      simp [hc, hsplit, ← ih]

theorem isGap_of_mem_words (h : word ∈ words line) (hc : c ∈ word) : isGap c = false := by
  have hm : c ∈ (words line).flatten := List.mem_flatten.2 ⟨word, h, hc⟩
  rw [flatten_words] at hm
  simpa using (List.mem_filter.1 hm).2

theorem words_eq_nil_iff : words line = [] ↔ ∀ c ∈ line, isGap c = true := by
  have hflatten : words line = [] ↔ (words line).flatten = [] := by
    rw [List.flatten_eq_nil_iff]
    constructor
    · intro h
      simp [h]
    · intro h
      exact List.eq_nil_iff_forall_not_mem.2 fun word hm => ne_nil_of_mem_words hm (h word hm)
  rw [hflatten, flatten_words, List.filter_eq_nil_iff]
  simp

def wordRecords (number : Nat) (lines : List (List UInt8)) : List (Nat × List (List UInt8)) :=
  (lines.zipIdx number).map fun (line, number) => (number, words line)

theorem wordRecords_cons (number : Nat) (text : List UInt8) (lines : List (List UInt8)) :
    wordRecords number (text :: lines) =
      (number, words text) :: wordRecords (number + 1) lines := rfl

theorem wordRecords_append (number : Nat) (lines later : List (List UInt8)) :
    wordRecords number (lines ++ later) =
      wordRecords number lines ++ wordRecords (number + lines.length) later := by
  rw [wordRecords, List.zipIdx_append, List.map_append]
  rfl

theorem wordRecords_feeds (number : Nat) (texts : List (List UInt8)) :
    wordRecords number (texts.map (· ++ [10])) = wordRecords number texts := by
  induction texts generalizing number with
  | nil => rfl
  | cons text texts ih => rw [List.map_cons, wordRecords_cons, wordRecords_cons, words_feed, ih]

theorem wordRecords_physicalLines {texts : List (List UInt8)} {last : List UInt8}
    (hfeed : ∀ text ∈ texts, 10 ∉ text) (hlast : 10 ∉ last) :
    wordRecords 1 (physicalLines (LineEnding.feed.write texts ++ last)) =
      wordRecords 1 texts ++ wordRecords (texts.length + 1) (if last = [] then [] else [last]) := by
  rw [physicalLines_write hfeed hlast, wordRecords_append, wordRecords_feeds, List.length_map,
    Nat.add_comm 1]

end Words

structure Dialect.Lettered (d : Dialect) (c : UInt8) : Prop where
  plain : d.Plain c
  comment : d.isComment c = false

namespace Splitter

variable {d : Dialect} {base s t : Splitter} {c : UInt8} {text run : List UInt8} {line : Nat}
  {fields : List (List UInt8)}

/-! ## Inside a line -/

/-- `s` has gone on from `base` within a line, of which it has the words `fields` and the bytes
`run` of the word it is in, if it is in one. -/
structure Gathers (base : Splitter) (fields : List (List UInt8)) (run : List UInt8)
    (s : Splitter) : Prop where
  state : s.state = if run = [] then .betweenFields else .inField
  drafts : base.Drafts fields run s
  heldBlanks : s.heldBlanks = base.heldBlanks
  run : ∀ c ∈ run, isGap c = false

theorem Gathers.isOpen (h : Gathers base fields run s) : s.state.isOpen = true := by
  rw [h.state]
  split_ifs <;> rfl

theorem Gathers.ended (h : Gathers base fields run s) :
    base.Drafts (fields ++ words run) [] s.ended := by
  unfold Splitter.ended
  rw [h.state]
  by_cases hn : run = []
  · subst hn
    simpa using h.drafts
  · rw [if_neg hn, words_run hn h.run]
    exact h.drafts.closeField

section Blanks

variable (hblanks : d.blankDelimited = true)

include hblanks

theorem readAtFieldStart_letter (hc : d.Lettered c) (hgap : isGap c = false) (s : Splitter) :
    s.readAtFieldStart d c = .ok ((s.push c).enter .inField) := by
  have hblank : Dialect.isSpaceOrTab c = false := (Bool.or_eq_false_iff.1 hgap).2
  simp [readAtFieldStart, hc.plain.not_terminator, hc.plain.not_return, hc.plain.quote,
    hc.plain.escape, hc.comment, Dialect.isInitialSpace, Dialect.isDelimiter, hblanks, hblank]

theorem gathers_letter (hc : d.Lettered c) (hgap : isGap c = false)
    (h : Gathers base fields run s) :
    ∃ t, s.readByte d c = .ok t ∧ Gathers base fields (run ++ [c]) t := by
  have hblank : Dialect.isSpaceOrTab c = false := (Bool.or_eq_false_iff.1 hgap).2
  have hrun : ∀ b ∈ run ++ [c], isGap b = false := by
    simpa [or_imp, forall_and, hgap] using h.run
  have hpushed {u : Splitter} (hu : base.Drafts fields run u)
      (hheld : u.heldBlanks = base.heldBlanks) (hstate : u.state = .inField) :
      Gathers base fields (run ++ [c]) (u.push c) :=
    ⟨by rw [if_neg (by simp)]; exact hstate, hu.push c, hheld, hrun⟩
  by_cases hn : run = []
  · have hs : s.state = .betweenFields := by rw [h.state, if_pos hn]
    refine ⟨(s.push c).enter .inField, ?_, hpushed (h.drafts.enter .inField) h.heldBlanks rfl⟩
    rw [readByte_of_not_return d c s (by simp [hs]) (by simp [hs]), accept, hs]
    simp [readBetweenFields, hc.plain.not_terminator, hc.plain.not_return, hc.comment, hblank,
      readAtFieldStart_letter hblanks hc hgap, push, enter]
  · have hs : s.state = .inField := by rw [h.state, if_neg hn]
    refine ⟨s.push c, ?_, hpushed h.drafts h.heldBlanks hs⟩
    rw [readByte_of_not_return d c s (by simp [hs]) (by simp [hs]), accept, hs]
    simp [readInField, hc.plain.not_terminator, hc.plain.not_return, hc.plain.escape, hc.comment,
      Dialect.isDelimiter, hblanks, hblank]

theorem gathers_gap (hc : d.Lettered c) (hblank : Dialect.isSpaceOrTab c = true)
    (h : Gathers base fields run s) :
    ∃ t, s.readByte d c = .ok t ∧ Gathers base (fields ++ words run) [] t := by
  by_cases hn : run = []
  · have hs : s.state = .betweenFields := by rw [h.state, if_pos hn]
    refine ⟨s, ?_, by simpa [hn] using h⟩
    rw [readByte_of_not_return d c s (by simp [hs]) (by simp [hs]), accept, hs]
    simp [readBetweenFields, hc.plain.not_terminator, hc.plain.not_return, hc.comment, hblank]
  · have hs : s.state = .inField := by rw [h.state, if_neg hn]
    refine ⟨s.closeField.enter .betweenFields, ?_, rfl, ?_, h.heldBlanks, by simp⟩
    · rw [readByte_of_not_return d c s (by simp [hs]) (by simp [hs]), accept, hs]
      simp [readInField, hc.plain.not_terminator, hc.plain.not_return, hc.plain.escape,
        Dialect.isDelimiter, afterDelimiter, hblanks, hblank]
    · rw [words_run hn h.run]
      exact h.drafts.closeField.enter _

/-- The bytes of a line leave its words, the last of which may be open still. -/
theorem Gathers.readAll (hfeed : 10 ∉ text) (ht : ∀ c ∈ text, d.Lettered c)
    (h : Gathers base fields run s) :
    ∃ gathered last t, s.readAll d text = .ok t ∧ Gathers base gathered last t ∧
      gathered ++ words last = fields ++ words (run ++ text) := by
  induction text generalizing fields run s with
  | nil => exact ⟨fields, run, s, rfl, h, by rw [List.append_nil]⟩
  | cons c rest ih =>
    obtain ⟨hten, hrest⟩ := List.ne_and_not_mem_of_not_mem_cons hfeed
    have hc := ht c (by simp)
    have hletters : ∀ b ∈ rest, d.Lettered b := fun b hb => ht b (by simp [hb])
    rw [readAll_cons]
    cases hblank : Dialect.isSpaceOrTab c with
    | true =>
      obtain ⟨t, hread, hnext⟩ := gathers_gap hblanks hc hblank h
      obtain ⟨gathered, last, u, hall, hu, hwords⟩ := ih hrest hletters hnext
      refine ⟨gathered, last, u, by rw [hread, ok_bind, hall], hu, ?_⟩
      rw [hwords, List.nil_append, words_gap (by simp [isGap, hblank]), List.append_assoc]
    | false =>
      have hgap : isGap c = false := by simp [isGap, hblank, hten.symm]
      obtain ⟨t, hread, hnext⟩ := gathers_letter hblanks hc hgap h
      obtain ⟨gathered, last, u, hall, hu, hwords⟩ := ih hrest hletters hnext
      refine ⟨gathered, last, u, by rw [hread, ok_bind, hall], hu, ?_⟩
      rw [hwords, List.append_assoc, List.singleton_append]

variable (hempty : d.skipEmptyLines = false) (hskips : ∀ line, d.skipsLine line = false)

include hempty hskips

theorem AtLine.gathers (hfeed : c ≠ 10) (hc : d.Lettered c) (hs : s.AtLine d line)
    (hdrafts : s.Drafts [] [] s) :
    ∃ run t, s.readByte d c = .ok t ∧ Gathers s [] run t ∧
      ∀ rest, words (run ++ rest) = words (c :: rest) := by
  rw [hs.readByte_eq]
  cases hblank : Dialect.isSpaceOrTab c with
  | true =>
    refine ⟨[], s.enter .betweenFields, ?_, ⟨rfl, hdrafts.enter _, rfl, by simp⟩, fun rest => ?_⟩
    · simp [readAtLineStart, hskips, hc.plain.not_terminator, hc.plain.not_return, hc.comment,
        hblank, hblanks, hempty]
    · rw [List.nil_append, ← List.nil_append (c :: rest), words_gap (by simp [isGap, hblank]),
        words_nil, List.nil_append]
  | false =>
    have hgap : isGap c = false := by simp [isGap, hblank, hfeed]
    refine ⟨[c], (s.push c).enter .inField, ?_, ⟨rfl, (hdrafts.push c).enter _, rfl, ?_⟩,
      fun rest => rfl⟩
    · simp [readAtLineStart, hskips, hc.plain.not_terminator, hc.plain.not_return, hc.comment,
        hblank, readAtFieldStart_letter hblanks hc hgap, push, enter]
    · simpa using hgap

theorem AtLine.completes_words (hterminator : d.isTerminator 10 = true) (hfeed : 10 ∉ text)
    (ht : ∀ c ∈ text, d.Lettered c) (hs : s.AtLine d line) (hkeeps : s.Keeps s.records [] []) :
    ∃ t, Completes d s text (words text) t := by
  have hdrafts : s.Drafts [] [] s := ⟨hkeeps, rfl, rfl, rfl, rfl⟩
  cases text with
  | nil =>
    have hpass : d.passesOver line [] = false := by simp [Dialect.passesOver, hskips, hempty]
    exact ⟨s, words_nil ▸ hs.completes_empty hterminator hpass hdrafts⟩
  | cons c rest =>
    obtain ⟨hten, hrest⟩ := List.ne_and_not_mem_of_not_mem_cons hfeed
    obtain ⟨run, u, hread, hu, hfirst⟩ :=
      hs.gathers hblanks hempty hskips hten.symm (ht c (by simp)) hdrafts
    obtain ⟨gathered, last, v, hall, hv, hwords⟩ :=
      hu.readAll hblanks hrest fun b hb => ht b (by simp [hb])
    have hended := hv.ended
    rw [hwords, List.nil_append, hfirst] at hended
    have hreads : s.readAll d (c :: rest) = .ok v := by rw [readAll_cons, hread, ok_bind, hall]
    exact ⟨v.ended, completes_open hterminator hreads hv.isOpen hended fun hb =>
      hv.heldBlanks.trans (hs.heldBlanks hb)⟩

/-! ## Line after line -/

theorem AtLine.readAll_words {texts : List (List UInt8)} (hterminator : d.isTerminator 10 = true)
    (hfeed : ∀ text ∈ texts, 10 ∉ text) (ht : ∀ text ∈ texts, ∀ c ∈ text, d.Lettered c)
    (hs : s.AtLine d line) (hwidth : s.anyWidth = true) (hkeeps : s.Keeps s.records [] []) :
    ∃ t, s.readAll d (LineEnding.feed.write texts) = .ok t ∧ t.AtLine d (line + texts.length) ∧
      t.anyWidth = true ∧ t.Keeps (s.records ++ wordRecords (line + 1) texts) [] [] := by
  induction texts generalizing s line with
  | nil => exact ⟨s, rfl, hs, hwidth, by simpa [wordRecords] using hkeeps⟩
  | cons text texts ih =>
    obtain ⟨u, hu⟩ := hs.completes_words hblanks hempty hskips hterminator (hfeed text (by simp))
      (ht text (by simp)) hkeeps
    have hended : u.endLine d = .ok u.commitLine :=
      endLine_anyWidth d (hu.drafts.anyWidth.trans hwidth) hu.skipping
    have hnext := hu.drafts.commitLine.enter .lineStart
    have hrecords := hnext.records_eq
    obtain ⟨t, hread, hline, hany, hkept⟩ := ih (fun text hm => hfeed text (by simp [hm]))
      (fun text hm => ht text (by simp [hm])) (hu.atLine hs hended)
      (hu.drafts.anyWidth.trans hwidth) (hrecords ▸ hnext)
    refine ⟨t, ?_, ?_, hany, ?_⟩
    · rw [write_feed_cons, readAll_append, (hu.commit hwidth).1, ok_bind, hread]
    · rw [List.length_cons, Nat.add_comm texts.length, ← Nat.add_assoc]
      exact hline
    · rw [hrecords, hs.fileLines, List.append_assoc] at hkept
      exact hkept

theorem AtLine.finish_words (hterminator : d.isTerminator 10 = true) (hfeed : 10 ∉ text)
    (ht : ∀ c ∈ text, d.Lettered c) (hs : s.AtLine d line) (hwidth : s.anyWidth = true)
    (hkeeps : s.Keeps s.records [] []) :
    ∃ t, s.readAll d text >>= finish d = .ok t ∧
      t.records = s.records ++ wordRecords (line + 1) (if text = [] then [] else [text]) := by
  by_cases hn : text = []
  · refine ⟨s.enter .finished, ?_, ?_⟩
    · rw [hn, readAll_nil, ok_bind, hs.finish_eq]
    · rw [if_pos hn, (hkeeps.enter .finished).records_eq]
      exact (List.append_nil _).symm
  · obtain ⟨u, hu⟩ := hs.completes_words hblanks hempty hskips hterminator hfeed ht hkeeps
    refine ⟨u.commitLine.enter .finished, ?_, ?_⟩
    · rw [hu.last hn, endLine_anyWidth d (hu.drafts.anyWidth.trans hwidth) hu.skipping]
      rfl
    · rw [if_neg hn, (hu.drafts.commitLine.enter .finished).records_eq, hs.fileLines]
      rfl

end Blanks

end Splitter

namespace Session

/-- Where blanks delimit, every line is committed with its number, and its fields are its words. No
blank makes an empty field, and a line of blanks has no fields. -/
theorem tokenizeAll_words (d : Dialect) (hblanks : d.blankDelimited = true)
    (hempty : d.skipEmptyLines = false) (hterminator : d.lineTerminator = none)
    (hskips : ∀ line, d.skipsLine line = false) (headerLines chunkSize : Nat) (feed : Feed)
    (hfailures : feed.failures = 0)
    (hplain : ∀ c ∈ feed.content, c ≠ 13 ∧ d.isQuote c = false ∧ d.isEscape c = false ∧
      d.isComment c = false)
    (hmark : ¬ byteOrderMark <+: feed.content) :
    let p := (Session.start headerLines true chunkSize).tokenizeAll d feed
    let lines := physicalLines feed.content
    p.fault = none ∧
      p.session.splitter.records =
        (lines.zipIdx 1).map (fun (line, number) => (number, words line)) ∧
      (∀ line ∈ lines, ∀ field ∈ words line,
        field ≠ [] ∧ ∀ c ∈ field, Dialect.isSpaceOrTab c = false) ∧
      ∀ line ∈ lines, words line = [] ↔ d.isBlankLine line = true := by
  intro p lines
  obtain ⟨texts, last, hcontent, hfeed, hlast⟩ := exists_lines feed.content
  obtain ⟨htexts, hend, -⟩ := Dialect.plain_of_write hterminator hcontent hfeed hlast
    fun c hc => ⟨(hplain c hc).1, (hplain c hc).2.1, (hplain c hc).2.2.1⟩
  have hletters {text : List UInt8} (hp : ∀ c ∈ text, d.Plain c)
      (hm : ∀ c ∈ text, c ∈ feed.content) : ∀ c ∈ text, d.Lettered c :=
    fun c hc => ⟨hp c hc, (hplain c (hm c hc)).2.2.2⟩
  have htexts : ∀ text ∈ texts, ∀ c ∈ text, d.Lettered c := fun text hm =>
    hletters (htexts text hm) fun c hc =>
      hcontent ▸ List.mem_append_left _ (mem_write_feed hm (List.mem_append_left _ hc))
  have hend : ∀ c ∈ last, d.Lettered c :=
    hletters hend fun c hc => hcontent ▸ List.mem_append_right _ hc
  have hten : d.isTerminator 10 = true := by simp [Dialect.isTerminator, hterminator]
  have hp : p.outcome = _ := tokenizeAll_start d headerLines true chunkSize hfailures
  rw [withoutMark, if_neg hmark, hcontent, Splitter.readAll_append, bind_assoc] at hp
  obtain ⟨s, hs, hline, hwidth, hkeeps⟩ :=
    (Splitter.atLine_start d headerLines true).readAll_words hblanks hempty hskips hten hfeed htexts
      rfl (Splitter.drafts_start headerLines true).keeps
  have hrecords := hkeeps.records_eq
  obtain ⟨t, ht, hlater⟩ := hline.finish_words hblanks hempty hskips hten hlast hend hwidth
    (hrecords ▸ hkeeps)
  rw [hs, ok_bind, ht] at hp
  obtain ⟨hfault, hsplitter⟩ := Prod.mk.inj hp
  refine ⟨hfault, ?_, fun line _ field hm => ⟨ne_nil_of_mem_words hm, fun c hc => ?_⟩,
    fun line _ => ?_⟩
  · have hnone : ({ headerLines := headerLines, anyWidth := true } : Splitter).records = [] := rfl
    rw [hrecords, hnone, List.nil_append, Nat.zero_add, Nat.zero_add] at hlater
    rw [hsplitter, hlater, ← wordRecords_physicalLines hfeed hlast, ← hcontent]
    rfl
  · exact (Bool.or_eq_false_iff.1 (isGap_of_mem_words hm hc)).2
  · rw [words_eq_nil_iff, Dialect.isBlankLine, List.all_eq_true]
    simp [isGap, hblanks]

/-- Blanks before, between and behind the words, a line of blanks, an empty one, and a last line of
one letter. -/
theorem tokenizeAll_words_indented :
    let d : Dialect := { blankDelimited := true }
    let content : List UInt8 :=
      [32, 97, 9, 32, 98, 99, 32, 10, 9, 32, 10, 10, 100, 32, 101, 10, 32, 102]
    let p := (Session.start 2 true 5).tokenizeAll d (.memory content)
    let lines := physicalLines content
    p.session.splitter.records =
        [(1, [[97], [98, 99]]), (2, []), (3, []), (4, [[100], [101]]), (5, [[102]])] ∧
      p.fault = none ∧
      p.session.splitter.records =
        (lines.zipIdx 1).map (fun (line, number) => (number, words line)) ∧
      (∀ line ∈ lines, ∀ field ∈ words line,
        field ≠ [] ∧ ∀ c ∈ field, Dialect.isSpaceOrTab c = false) ∧
      ∀ line ∈ lines, words line = [] ↔ d.isBlankLine line = true := by
  intro d content p lines
  refine ⟨by decide +kernel, ?_⟩
  exact tokenizeAll_words d rfl rfl rfl (fun line => by simp [d, Dialect.skipsLine,
    LineSet.contains]) 2 5 (.memory content) rfl (by decide +kernel) (by decide +kernel)

end Session

end TypedTable.Csv
