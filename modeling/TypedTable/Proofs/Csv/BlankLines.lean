import TypedTable.Proofs.Csv.WholeLines

/-!
# Blank lines

Lines with nothing but blanks can be skipped. In a text without quotes that is the same as to split
the text without these lines: a line that begins with blanks and goes on with something else has the
fields that it has if no blank is held back.
-/

set_option autoImplicit false

namespace TypedTable.Csv

namespace Dialect

def withoutBlankLines (d : Dialect) (content : List UInt8) : List UInt8 :=
  ((physicalLines content).filter fun line => !d.isBlankLine line).flatten

def skippingBlankLines (d : Dialect) (skips : Bool) : Dialect := { d with skipEmptyLines := skips }

variable {d : Dialect} {c : UInt8}

theorem Plain.skippingBlankLines (h : d.Plain c) (skips : Bool) :
    (d.skippingBlankLines skips).Plain c := ⟨h.ending, h.quote, h.escape⟩

theorem isTerminator_skippingBlankLines (hterminator : d.lineTerminator = none) (skips : Bool) :
    (d.skippingBlankLines skips).isTerminator 10 = true := by
  simp [isTerminator, skippingBlankLines, hterminator]

theorem passesOver_skippingBlankLines (hskips : ∀ line, d.skipsLine line = false) (skips : Bool)
    (line : Nat) (text : List UInt8) :
    (d.skippingBlankLines skips).passesOver line text =
      (text.head?.any d.isComment || skips && text.all d.isHeldBlank) := by
  have hskip : (d.skippingBlankLines skips).skipsLine line = false := hskips line
  rw [passesOver, hskip, Bool.false_or]
  rfl

theorem passesOver_of_content (hskips : ∀ line, d.skipsLine line = false) {text : List UInt8}
    (hcontent : text.all d.isHeldBlank = false) (skips : Bool) (line : Nat) :
    (d.skippingBlankLines skips).passesOver line text = text.head?.any d.isComment := by
  rw [passesOver_skippingBlankLines hskips, hcontent, Bool.and_false, Bool.or_false]

theorem withoutBlankLines_write {texts : List (List UInt8)} {last : List UInt8}
    (ht : ∀ text ∈ texts, 10 ∉ text) (hl : 10 ∉ last) :
    d.withoutBlankLines (LineEnding.feed.write texts ++ last) =
      LineEnding.feed.write (texts.filter fun text => !d.isBlankLine text) ++
        if d.isBlankLine last then [] else last := by
  have hlast : ((if last = [] then [] else [last]).filter fun line => !d.isBlankLine line).flatten =
      if d.isBlankLine last then [] else last := by
    by_cases hn : last = []
    · rw [if_pos hn, hn]
      rfl
    · rw [if_neg hn, List.filter_singleton]
      cases d.isBlankLine last <;> simp
  have hkept : ((texts.map (· ++ [10])).filter fun line => !d.isBlankLine line).flatten =
      LineEnding.feed.write (texts.filter fun text => !d.isBlankLine text) := by
    rw [List.filter_map, LineEnding.write, List.flatMap]
    congr 3
    funext text
    exact congrArg (!·) (d.isBlankLine_feed text)
  rw [withoutBlankLines, physicalLines_write ht hl, List.filter_append, List.flatten_append, hlast,
    hkept]

end Dialect

namespace Splitter

variable {d e : Dialect} {base other s t : Splitter} {text : List UInt8} {line otherLine : Nat}
  {records others : List (Nat × List (List UInt8))} {fields : List (List UInt8)}

/-! ## Two splitters that commit the same rows -/

def Parallel (P : Splitter → Splitter → Prop) (x y : Except (Halted Splitter) Splitter) : Prop :=
  Both P x y ∨ (∃ halted, x = .error halted) ∧ ∃ halted, y = .error halted

namespace Parallel

variable {P Q : Splitter → Splitter → Prop} {x y : Except (Halted Splitter) Splitter}

theorem ok (h : P s t) : Parallel P (.ok s) (.ok t) := .inl (.ok h)

theorem error (halted halted' : Halted Splitter) : Parallel P (.error halted) (.error halted') :=
  .inr ⟨⟨halted, rfl⟩, halted', rfl⟩

theorem bind {f g : Splitter → Except (Halted Splitter) Splitter} (h : Parallel P x y)
    (hf : ∀ s t, x = .ok s → y = .ok t → P s t → Parallel Q (f s) (g t)) :
    Parallel Q (x >>= f) (y >>= g) := by
  rcases h with ⟨s, t, rfl, rfl, h⟩ | ⟨⟨halted, rfl⟩, halted', rfl⟩
  · exact hf s t rfl rfl h
  · exact error halted halted'

end Parallel

/-- Two splitters have committed the same rows and ask the same of the lines to come. -/
structure Paired (s t : Splitter) : Prop where
  headerLines : t.headerLines = s.headerLines
  anyWidth : t.anyWidth = s.anyWidth
  firstSize : t.stream.firstSize = s.stream.firstSize
  keeps : s.Keeps s.records [] []
  others : t.Keeps t.records [] []
  rows : t.rows = s.rows

theorem map_records (s : Splitter) : s.records.map (·.2) = s.rows := by
  rw [records, List.map_map]
  rfl

theorem Paired.of_keeps (hs : s.Keeps records [] []) (ht : t.Keeps others [] [])
    (hrows : others.map (·.2) = records.map (·.2)) (hheader : t.headerLines = s.headerLines)
    (hwidth : t.anyWidth = s.anyWidth) (hfirst : t.stream.firstSize = s.stream.firstSize) :
    Paired s t where
  headerLines := hheader
  anyWidth := hwidth
  firstSize := hfirst
  keeps := hs.records_eq ▸ hs
  others := ht.records_eq ▸ ht
  rows := by rw [hs.holds.rows_eq, ht.holds.rows_eq, hrows]

theorem Paired.warn (h : Paired s t) (warnings warnings' : Array Warning) :
    Paired { s with warnings := warnings } { t with warnings := warnings' } :=
  .of_keeps (h.keeps.warn warnings) (h.others.warn warnings')
    (by rw [map_records, map_records, h.rows]) h.headerLines h.anyWidth h.firstSize

theorem Paired.requiredWidth (h : Paired base other) (he : e.expectedFields = d.expectedFields) :
    e.requiredWidth other.headerLines other.anyWidth other.records =
      d.requiredWidth base.headerLines base.anyWidth base.records := by
  have hlength : other.records.length = base.records.length := by
    rw [← List.length_map (·.2), map_records, h.rows, ← map_records, List.length_map]
  have hlast : other.records.getLast?.map (·.2.length) =
      base.records.getLast?.map (·.2.length) := by
    have hrows := congrArg (fun rows => rows.getLast?.map List.length) h.rows
    rw [← map_records, ← map_records] at hrows
    simpa [List.getLast?_map, Function.comp_def] using hrows
  rw [Dialect.requiredWidth, Dialect.requiredWidth, h.headerLines, h.anyWidth, he, hlength, hlast]

theorem Paired.streamSize (h : Paired base other) (hs : base.Drafts fields [] s)
    (ht : other.Drafts fields [] t) : t.stream.size = s.stream.size := by
  rw [FieldStream.size, FieldStream.size, hs.keeps.holds.stream.size, ht.keeps.holds.stream.size,
    map_records, map_records, h.rows]

theorem Paired.commitLine (h : Paired base other) (hs : base.Drafts fields [] s)
    (ht : other.Drafts fields [] t) : Paired s.commitLine t.commitLine := by
  refine .of_keeps hs.commitLine ht.commitLine ?_ ?_ ?_ ?_
  · rw [List.map_append, List.map_append, map_records, map_records, h.rows]
    rfl
  · exact ht.headerLines.trans (h.headerLines.trans hs.headerLines.symm)
  · exact ht.anyWidth.trans (h.anyWidth.trans hs.anyWidth.symm)
  · exact ht.firstSize.trans (h.firstSize.trans hs.firstSize.symm)

theorem Paired.discardLine (h : Paired base other) (hs : base.Drafts fields [] s)
    (ht : other.Drafts fields [] t) :
    Paired s.countLine.discardLine t.countLine.discardLine := by
  refine .of_keeps hs.discardLine ht.discardLine ?_ ?_ ?_ ?_
  · rw [map_records, map_records, h.rows]
  · exact ht.headerLines.trans (h.headerLines.trans hs.headerLines.symm)
  · exact ht.anyWidth.trans (h.anyWidth.trans hs.anyWidth.symm)
  · simp only [Splitter.discardLine, firstSize_dropLast]
    exact ht.firstSize.trans (h.firstSize.trans hs.firstSize.symm)

theorem Paired.endLine (h : Paired base other) (hexpected : e.expectedFields = d.expectedFields)
    (hpolicy : e.onBadLines = d.onBadLines) (hs : base.Drafts fields [] s)
    (ht : other.Drafts fields [] t) (hskip : s.state.isSkipping = false)
    (hskips : t.state.isSkipping = false) :
    Parallel Paired (s.endLine d) (t.endLine e) := by
  rw [Splitter.endLine, Splitter.endLine, if_neg (by simp [hskip]), if_neg (by simp [hskips]),
    hs.requiredFields, ht.requiredFields, h.requiredWidth hexpected, hs.openFields, ht.openFields]
  cases d.requiredWidth base.headerLines base.anyWidth base.records with
  | none => exact .ok (h.commitLine hs ht)
  | some width =>
    dsimp only
    split_ifs
    · rw [rejectLine, rejectLine, hpolicy]
      have hgone := h.discardLine hs ht
      cases d.onBadLines with
      | error => exact .error _ _
      | warn => exact .ok (hgone.warn _ _)
      | skip => exact .ok hgone
    · have hroom : t.stream.checkRoom (width - fields.length) =
          s.stream.checkRoom (width - fields.length) :=
        FieldStream.checkRoom_congr (h.streamSize hs ht)
          (ht.firstSize.trans (h.firstSize.trans hs.firstSize.symm)) _
      rw [padLine, padLine, hroom]
      split_ifs
      · exact .ok (h.commitLine hs ht)
      · cases s.stream.checkRoom (width - fields.length) with
        | error fault => exact .error _ _
        | ok u => exact .ok (h.commitLine (hs.closeFields _) (ht.closeFields _))

/-! ## Lines that are skipped and lines that are not there -/

theorem Paired.enter (h : Paired s t) (state state' : SplitState) :
    Paired (s.enter state) (t.enter state') :=
  .of_keeps (h.keeps.enter state) (h.others.enter state')
    (by rw [map_records, map_records, h.rows]) h.headerLines h.anyWidth h.firstSize

theorem Paired.passed (h : Paired base other) (hs : Passed d base s) (ht : Passed e other t) :
    Paired s t := by
  refine .of_keeps hs.keeps ht.keeps ?_ ?_ ?_ ?_
  · rw [map_records, map_records, h.rows]
  · exact ht.headerLines.trans (h.headerLines.trans hs.headerLines.symm)
  · exact ht.anyWidth.trans (h.anyWidth.trans hs.anyWidth.symm)
  · exact ht.firstSize.trans (h.firstSize.trans hs.firstSize.symm)

structure AtLines (d : Dialect) (s t : Splitter) : Prop where
  skipping : ∃ line, s.AtLine (d.skippingBlankLines true) line
  keeping : ∃ line, t.AtLine (d.skippingBlankLines false) line
  paired : Paired s t

section Lines

variable (hk : d.KeepsBlanks) (hterminator : d.lineTerminator = none)
  (hskips : ∀ line, d.skipsLine line = false)

include hterminator hskips

theorem AtLines.readBlank (hquote : d.isQuote 10 = false) (ht : ∀ c ∈ text, d.Plain c)
    (hblank : text.all d.isHeldBlank = true) (h : AtLines d s t) :
    ∃ u, s.readAll (d.skippingBlankLines true) (text ++ [10]) = .ok u ∧ AtLines d u t := by
  obtain ⟨⟨line, hs⟩, hkeeping, hpaired⟩ := h
  have hpass : (d.skippingBlankLines true).passesOver line text = true := by
    rw [Dialect.passesOver_skippingBlankLines hskips, hblank, Bool.and_true, Bool.or_true]
  obtain ⟨u, hread, hpassed⟩ := hs.readAll_passes
    (Dialect.isTerminator_skippingBlankLines hterminator true) hquote
    (fun c hc => (ht c hc).skippingBlankLines true) hpass hpaired.keeps
  refine ⟨u, hread, ⟨_, hpassed.atLine hs⟩, hkeeping, ?_⟩
  refine .of_keeps hpassed.keeps hpaired.others ?_ ?_ ?_ ?_
  · rw [map_records, map_records, hpaired.rows]
  · exact hpaired.headerLines.trans hpassed.headerLines.symm
  · exact hpaired.anyWidth.trans hpassed.anyWidth.symm
  · exact hpaired.firstSize.trans hpassed.firstSize.symm

theorem AtLines.readComment (hquote : d.isQuote 10 = false) (ht : ∀ c ∈ text, d.Plain c)
    (hcontent : text.all d.isHeldBlank = false) (hcomment : text.head?.any d.isComment = true)
    (h : AtLines d s t) :
    Both (AtLines d) (s.readAll (d.skippingBlankLines true) (text ++ [10]))
      (t.readAll (d.skippingBlankLines false) (text ++ [10])) := by
  obtain ⟨⟨line, hs⟩, ⟨otherLine, ht'⟩, hpaired⟩ := h
  obtain ⟨u, hread, hpassed⟩ := hs.readAll_passes
    (Dialect.isTerminator_skippingBlankLines hterminator true) hquote
    (fun c hc => (ht c hc).skippingBlankLines true)
    ((Dialect.passesOver_of_content hskips hcontent true line).trans hcomment) hpaired.keeps
  obtain ⟨v, hread', hpassed'⟩ := ht'.readAll_passes
    (Dialect.isTerminator_skippingBlankLines hterminator false) hquote
    (fun c hc => (ht c hc).skippingBlankLines false)
    ((Dialect.passesOver_of_content hskips hcontent false otherLine).trans hcomment) hpaired.others
  rw [hread, hread']
  exact .ok ⟨⟨_, hpassed.atLine hs⟩, ⟨_, hpassed'.atLine ht'⟩, hpaired.passed hpassed hpassed'⟩

include hk

/-- A line with content has the same fields in both, and ends alike. -/
theorem AtLines.completes (ht : ∀ c ∈ text, d.Plain c) (hcontent : text.all d.isHeldBlank = false)
    (hcomment : text.head?.any d.isComment = false) (h : AtLines d s t) :
    ∃ fields u v, Completes (d.skippingBlankLines true) s text fields u ∧
      Completes (d.skippingBlankLines false) t text fields v ∧
      Parallel Paired (u.endLine (d.skippingBlankLines true))
        (v.endLine (d.skippingBlankLines false)) := by
  obtain ⟨⟨line, hs⟩, ⟨otherLine, ht'⟩, hpaired⟩ := h
  have hk (skips : Bool) : (d.skippingBlankLines skips).KeepsBlanks := hk
  obtain ⟨u, hu⟩ := hs.completes (hk true)
    (Dialect.isTerminator_skippingBlankLines hterminator true)
    (fun c hc => (ht c hc).skippingBlankLines true)
    ((Dialect.passesOver_of_content hskips hcontent true line).trans hcomment) hpaired.keeps
  obtain ⟨v, hv⟩ := ht'.completes (hk false)
    (Dialect.isTerminator_skippingBlankLines hterminator false)
    (fun c hc => (ht c hc).skippingBlankLines false)
    ((Dialect.passesOver_of_content hskips hcontent false otherLine).trans hcomment) hpaired.others
  exact ⟨_, u, v, hu, hv,
    hpaired.endLine rfl rfl hu.drafts hv.drafts hu.skipping hv.skipping⟩

theorem AtLines.readLine (hquote : d.isQuote 10 = false) (ht : ∀ c ∈ text, d.Plain c)
    (hcontent : text.all d.isHeldBlank = false) (h : AtLines d s t) :
    Parallel (AtLines d) (s.readAll (d.skippingBlankLines true) (text ++ [10]))
      (t.readAll (d.skippingBlankLines false) (text ++ [10])) := by
  cases hcomment : text.head?.any d.isComment with
  | true => exact .inl (h.readComment hterminator hskips hquote ht hcontent hcomment)
  | false =>
    obtain ⟨fields, u, v, hu, hv, hends⟩ :=
      h.completes hk hterminator hskips ht hcontent hcomment
    obtain ⟨⟨line, hs⟩, ⟨otherLine, ht'⟩, -⟩ := h
    rw [hu.feed, hv.feed, endLineTo, endLineTo]
    refine hends.bind fun u' v' hended hended' h => .ok ?_
    exact ⟨⟨_, hu.atLine hs hended⟩, ⟨_, hv.atLine ht' hended'⟩, h.enter _ _⟩

/-- The lines of a text beside those that are not blank. -/
theorem AtLines.readAll {texts : List (List UInt8)} (hquote : texts ≠ [] → d.isQuote 10 = false)
    (hfeed : ∀ text ∈ texts, 10 ∉ text) (ht : ∀ text ∈ texts, ∀ c ∈ text, d.Plain c)
    (h : AtLines d s t) :
    Parallel (AtLines d) (s.readAll (d.skippingBlankLines true) (LineEnding.feed.write texts))
      (t.readAll (d.skippingBlankLines false)
        (LineEnding.feed.write (texts.filter fun text => !d.isBlankLine text))) := by
  induction texts generalizing s t with
  | nil => exact .ok h
  | cons text texts ih =>
    have hlater {s t : Splitter} (h : AtLines d s t) := ih (fun _ => hquote (by simp))
      (fun text hm => hfeed text (by simp [hm])) (fun text hm => ht text (by simp [hm])) h
    have hblank := Dialect.isBlankLine_text hk (hfeed text (by simp))
    rw [write_feed_cons, readAll_append _ (text ++ [10])]
    cases hall : text.all d.isHeldBlank with
    | true =>
      obtain ⟨u, hread, hu⟩ :=
        h.readBlank hterminator hskips (hquote (by simp)) (ht text (by simp)) hall
      rw [hread, ok_bind, List.filter_cons_of_neg (by simp [hblank, hall])]
      exact hlater hu
    | false =>
      rw [List.filter_cons_of_pos (by simp [hblank, hall]), write_feed_cons,
        readAll_append _ (text ++ [10])]
      exact (h.readLine hk hterminator hskips (hquote (by simp)) (ht text (by simp)) hall).bind
        fun _ _ _ _ h => hlater h

/-- The last line, which has no line feed, where the input ends. -/
theorem AtLines.finish (hfeed : 10 ∉ text) (ht : ∀ c ∈ text, d.Plain c) (h : AtLines d s t) :
    Parallel (fun s t => t.rows = s.rows)
      (s.readAll (d.skippingBlankLines true) text >>= finish (d.skippingBlankLines true))
      (t.readAll (d.skippingBlankLines false) (if d.isBlankLine text then [] else text) >>=
        finish (d.skippingBlankLines false)) := by
  have hcompletes := h.completes hk hterminator hskips ht
  obtain ⟨⟨line, hs⟩, ⟨otherLine, ht'⟩, hpaired⟩ := h
  have hplain (skips : Bool) : ∀ c ∈ text, (d.skippingBlankLines skips).Plain c :=
    fun c hc => (ht c hc).skippingBlankLines skips
  rw [Dialect.isBlankLine_text hk hfeed]
  by_cases hn : text = []
  · subst hn
    rw [ite_self, readAll_nil, readAll_nil, ok_bind, ok_bind, hs.finish_eq, ht'.finish_eq]
    exact .ok hpaired.rows
  -- a last line of blanks is dropped from the second text, any other one is read by both
  cases hcontent : text.all d.isHeldBlank with
  | true =>
    obtain ⟨u, hread, hkeeps⟩ := hs.finish_passed (hplain true) hn
      (by rw [Dialect.passesOver_skippingBlankLines hskips, hcontent, Bool.and_true, Bool.or_true])
      hpaired.keeps
    rw [if_pos rfl, hread, readAll_nil, ok_bind, ht'.finish_eq]
    refine .ok (hpaired.rows.trans ?_)
    rw [hkeeps.holds.rows_eq, map_records]
  | false =>
    have hpass := Dialect.passesOver_of_content hskips hcontent
    rw [if_neg (by simp)]
    cases hcomment : text.head?.any d.isComment with
    | true =>
      obtain ⟨u, hread, hkeeps⟩ := hs.finish_passed (hplain true) hn
        ((hpass true line).trans hcomment) hpaired.keeps
      obtain ⟨v, hread', hkeeps'⟩ := ht'.finish_passed (hplain false) hn
        ((hpass false otherLine).trans hcomment) hpaired.others
      rw [hread, hread']
      refine .ok ?_
      rw [hkeeps.holds.rows_eq, hkeeps'.holds.rows_eq, map_records, map_records, hpaired.rows]
    | false =>
      obtain ⟨fields, u, v, hu, hv, hends⟩ := hcompletes hcontent hcomment
      rw [hu.last hn, hv.last hn]
      exact hends.bind fun _ _ _ _ h => .ok (h.enter .finished .finished).rows

end Lines

theorem atLines_start (d : Dialect) (headerLines : Nat) (anyWidth : Bool) :
    AtLines d { headerLines := headerLines, anyWidth := anyWidth }
      { headerLines := headerLines, anyWidth := anyWidth } where
  skipping := ⟨0, atLine_start _ headerLines anyWidth⟩
  keeping := ⟨0, atLine_start _ headerLines anyWidth⟩
  paired := ⟨rfl, rfl, rfl, (drafts_start headerLines anyWidth).keeps,
    (drafts_start headerLines anyWidth).keeps, rfl⟩

end Splitter

namespace Session

/-- To skip blank lines is to split the text without them: both requests fail, or both commit the
same rows. -/
theorem tokenizeAll_withoutBlankLines (d : Dialect) (hterminator : d.lineTerminator = none)
    (hskips : ∀ line, d.skipsLine line = false) (hblanks : d.KeepsBlanks) (headerLines : Nat)
    (anyWidth : Bool) (chunkSize otherSize : Nat) (feed other : Feed)
    (hfailures : feed.failures = 0) (hothers : other.failures = 0)
    (hplain : ∀ c ∈ feed.content, c ≠ 13 ∧ d.isQuote c = false ∧ d.isEscape c = false)
    (hother : other.content = d.withoutBlankLines feed.content)
    (hmark : ¬ byteOrderMark <+: feed.content) (hmarks : ¬ byteOrderMark <+: other.content) :
    let p := (Session.start headerLines anyWidth chunkSize).tokenizeAll
      { d with skipEmptyLines := true } feed
    let q := (Session.start headerLines anyWidth otherSize).tokenizeAll
      { d with skipEmptyLines := false } other
    (p.fault = none ∧ q.fault = none ∧ q.session.splitter.rows = p.session.splitter.rows) ∨
      (p.fault ≠ none ∧ q.fault ≠ none) := by
  intro p q
  obtain ⟨texts, last, hcontent, hfeed, hlast⟩ := exists_lines feed.content
  obtain ⟨htexts, hend, hquote⟩ := Dialect.plain_of_write hterminator hcontent hfeed hlast hplain
  have hp : p.outcome = _ := tokenizeAll_start _ headerLines anyWidth chunkSize hfailures
  have hq : q.outcome = _ := tokenizeAll_start _ headerLines anyWidth otherSize hothers
  rw [withoutMark, if_neg hmark, hcontent, Splitter.readAll_append, bind_assoc] at hp
  rw [withoutMark, if_neg hmarks, hother, hcontent, Dialect.withoutBlankLines_write hfeed hlast,
    Splitter.readAll_append, bind_assoc] at hq
  have hparallel := ((Splitter.atLines_start d headerLines anyWidth).readAll hblanks hterminator
    hskips hquote hfeed htexts).bind fun _ _ _ _ h => h.finish hblanks hterminator hskips hlast hend
  rcases hparallel with ⟨u, v, hu, hv, hrows⟩ | ⟨⟨halted, hu⟩, halted', hv⟩
  · obtain ⟨hpf, hps⟩ := Prod.mk.inj (hp.trans (congrArg outcomeOf hu))
    obtain ⟨hqf, hqs⟩ := Prod.mk.inj (hq.trans (congrArg outcomeOf hv))
    exact .inl ⟨hpf, hqf, by rw [hps, hqs, hrows]⟩
  · obtain ⟨hpf, -⟩ := Prod.mk.inj (hp.trans (congrArg outcomeOf hu))
    obtain ⟨hqf, -⟩ := Prod.mk.inj (hq.trans (congrArg outcomeOf hv))
    exact .inr ⟨by simp [hpf], by simp [hqf]⟩

/-- Two blank lines, the second without a line feed, around a line that begins with blanks. -/
theorem tokenizeAll_withoutBlankLines_indented :
    let d : Dialect := { skipInitialSpace := true }
    let content : List UInt8 := [9, 10, 32, 9, 97, 44, 32, 98, 10, 32, 9]
    let p := (Session.start 0 false 3).tokenizeAll { d with skipEmptyLines := true } (.memory content)
    let q := (Session.start 0 false 5).tokenizeAll { d with skipEmptyLines := false }
      (.memory [32, 9, 97, 44, 32, 98, 10])
    d.withoutBlankLines content = [32, 9, 97, 44, 32, 98, 10] ∧
      p.session.splitter.rows = [[[9, 97], [98]]] ∧
      ((p.fault = none ∧ q.fault = none ∧ q.session.splitter.rows = p.session.splitter.rows) ∨
        (p.fault ≠ none ∧ q.fault ≠ none)) := by
  intro d content p q
  have hother : d.withoutBlankLines content = [32, 9, 97, 44, 32, 98, 10] := by decide +kernel
  have hblanks : d.KeepsBlanks := Dialect.keepsBlanks_of_eq_false rfl rfl
  refine ⟨hother, by decide +kernel, ?_⟩
  exact tokenizeAll_withoutBlankLines d rfl (fun line => by simp [d, Dialect.skipsLine,
    LineSet.contains]) hblanks 0 false 3 5 (.memory content) (.memory [32, 9, 97, 44, 32, 98, 10])
    rfl rfl (by decide +kernel) hother.symm (by decide +kernel) (by decide +kernel)

end Session

end TypedTable.Csv
