import TypedTable.Proofs.Csv.Limits

/-!
# Reading in steps

Lines can be asked for some at a time and given up in between: those given up on the way and those
left at the end are the lines of one run over the whole input. What a session makes of the rest of
its input is not changed by a stop, and giving up lines or trimming buffers leaves a session that
reads on in step with the one before.
-/

set_option autoImplicit false

namespace TypedTable.Csv

open Splitter

/-! ## Runs of requests -/

def Request.givenUp (s : Session) : Request → List (Nat × List (List UInt8))
  | .drop count => s.splitter.records.take count
  | _ => []

def Request.dropped : Request → Option Nat
  | .drop count => some count
  | _ => none

namespace Session

/-- Performs the requests and then reads to the end; a fault ends the run. The records that are
given up on the way are kept aside. -/
def inSteps (d : Dialect) :
    List Request → Feed → Session → List (Nat × List (List UInt8)) × Progress
  | [], feed, s => ([], s.tokenizeAll d feed)
  | request :: later, feed, s =>
    let p := request.perform d feed s
    match p.fault with
    | some _ => ([], p)
    | none =>
      let run := p.session.inSteps d later p.feed
      (request.givenUp s ++ run.1, run.2)

/-- The number of fields asked of the next line never comes from a line that is given up: one is
left, or the number does not depend on it. -/
def KeepsWidth (d : Dialect) : List Request → Feed → Session → Prop
  | [], _, _ => True
  | request :: later, feed, s =>
    let p := request.perform d feed s
    (∀ count ∈ request.dropped, count < s.splitter.lines.size ∨ s.splitter.anyWidth = true ∨
      d.expectedFields.isSome = true) ∧
      (p.fault = none → p.session.KeepsWidth d later p.feed)

instance decidableKeepsWidth (d : Dialect) :
    (requests : List Request) → (feed : Feed) → (s : Session) →
      Decidable (s.KeepsWidth d requests feed)
  | [], _, _ => .isTrue trivial
  | request :: later, feed, s =>
    have := decidableKeepsWidth d later (request.perform d feed s).feed
      (request.perform d feed s).session
    inferInstanceAs (Decidable (_ ∧ (_ → _)))

def Trims (d : Dialect) : List Request → Feed → Session → Prop
  | [], _, _ => False
  | .trim :: _, _, _ => True
  | request :: later, feed, s =>
    let p := request.perform d feed s
    p.fault = none ∧ p.session.Trims d later p.feed

variable {d : Dialect} {limit : Option Nat} {s t : Session} {trimmed : Prop}

/-- A run in steps comes to what the whole run comes to; a want of room is excused if lines were
given up or buffers were trimmed. -/
structure ComesTo (trimmed : Prop) (run : List (Nat × List (List UInt8)) × Progress)
    (whole : Progress) : Prop where
  ok : whole.fault = none → run.2.fault = none ∧
    run.1 ++ run.2.session.splitter.records = whole.session.splitter.records ∧
    run.2.session.splitter.warnings = whole.session.splitter.warnings ∧
    run.2.session.splitter.fileLines = whole.session.splitter.fileLines
  fault : ∀ fault, whole.fault = some fault →
    run.2.fault = some fault ∨ fault.isRoomFault = true ∧ (run.1 ≠ [] ∨ trimmed)

namespace ComesTo

variable {run : List (Nat × List (List UInt8)) × Progress} {whole : Progress}

theorem congr {other : Progress} (h : ComesTo trimmed run whole)
    (heq : whole.outcome = other.outcome) : ComesTo trimmed run other := by
  obtain ⟨hfault, hsplitter⟩ := Prod.mk.inj heq
  refine ⟨fun hf => ?_, fun fault hf => h.fault fault (hfault.trans hf)⟩
  rw [← hsplitter]
  exact h.ok (hfault.trans hf)

theorem mono {more : Prop} (h : ComesTo trimmed run whole) (hmore : trimmed → more) :
    ComesTo more run whole :=
  ⟨h.ok, fun fault hf => (h.fault fault hf).imp_right (And.imp_right (Or.imp_right hmore))⟩

theorem of_fault {fault : ReadFault} (hw : whole.fault = some fault)
    (h : run.2.fault = some fault ∨ fault.isRoomFault = true ∧ (run.1 ≠ [] ∨ trimmed)) :
    ComesTo trimmed run whole := by
  refine ⟨fun hf => ?_, fun other hf => ?_⟩
  · cases hw.symm.trans hf
  · obtain rfl : fault = other := Option.some.inj (hw.symm.trans hf)
    exact h

theorem of_agree {p : Progress}
    (h : Progress.Agree (Trails d [] 0 trimmed) (RoomExcuse 0 trimmed) p whole) :
    ComesTo trimmed ([], p) whole := by
  cases h with
  | ok _ h =>
    refine ⟨fun _ => ⟨rfl, ?_, h.splitter.warnings, h.splitter.fileLines⟩, fun fault hf => by
      cases hf⟩
    exact (Trails.records_eq h.splitter).2
  | fault _ h => exact .of_fault rfl (.inl rfl)
  | excused hq h =>
    exact .of_fault hq (.inr ⟨h.2, .inr (h.1.resolve_left (Nat.lt_irrefl 0))⟩)

theorem take_min_of_prefix {α : Type} {first all : List α} (h : first <+: all) (count : Nat) :
    all.take (min count first.length) = first.take count := by
  rw [← List.take_take, ← List.prefix_iff_eq_take.1 h]

theorem of_drop {count : Nat} (feed : Feed)
    (hsteady : Steady (Trails d [] 0 False) s.splitter s.splitter)
    (hlast : count < s.splitter.lines.size ∨ s.splitter.anyWidth = true ∨
      d.expectedFields.isSome)
    (h : ComesTo trimmed run ((s.dropLines count).tokenizeAll d feed)) :
    ComesTo trimmed (s.splitter.records.take count ++ run.1, run.2) (s.tokenizeAll d feed) := by
  have htrails := hsteady.rebase.dropLines count hlast
  rw [Nat.zero_add, ← (dropLines_others s.splitter count).1] at htrails
  have hagree : Progress.Agree _ _ ((s.dropLines count).tokenizeAll d feed)
      (s.tokenizeAll d feed) :=
    agree_tokenize (Trails.lockstep d _ _ _) (fun _ => rfl) feed ⟨htrails, rfl, rfl, rfl, rfl⟩
  have hlength : s.splitter.records.length = s.splitter.lines.size := by
    simp [Splitter.records]
  generalize (s.dropLines count).tokenizeAll d feed = dropped at hagree h
  generalize s.tokenizeAll d feed = whole at hagree
  cases hagree with
  | @ok u t _ hin =>
    refine ⟨fun _ => ?_, fun fault hf => by cases hf⟩
    obtain ⟨hfault, hrecords, hwarnings, hfile⟩ := h.ok rfl
    obtain ⟨hbase, hdrop⟩ := Trails.records_eq hin.splitter
    refine ⟨hfault, ?_, hwarnings.trans hin.splitter.warnings,
      hfile.trans hin.splitter.fileLines⟩
    rw [List.append_assoc, hrecords, ← take_min_of_prefix hbase, hlength]
    show _ ++ u.splitter.records = t.splitter.records
    rw [hdrop, List.take_append_drop]
  | fault _ _ =>
    refine .of_fault rfl ((h.fault _ rfl).imp_right (And.imp_right (Or.imp_left fun hgone => ?_)))
    simp [hgone]
  | excused hq hexcuse =>
    refine .of_fault hq (.inr ⟨hexcuse.2, .inl fun hnil => ?_⟩)
    have htaken := congrArg List.length (List.append_eq_nil_iff.1 hnil).1
    have hpos := hexcuse.1.resolve_right id
    rw [List.length_take, hlength, List.length_nil] at htaken
    exact Nat.lt_irrefl 0 (htaken ▸ hpos)

end ComesTo

/-! ## A run beside one that is not trimmed -/

structure Beside (d : Dialect) (trimmed : Prop) (t s : Session) : Prop where
  inStep : t.InStep (Trails d [] 0 trimmed) s
  untrimmed : s.splitter.stream.firstSize = 2

theorem beside_start (d : Dialect) (headerLines : Nat) (anyWidth : Bool) (chunkSize : Nat) :
    Beside d False (start headerLines anyWidth chunkSize) (start headerLines anyWidth chunkSize) :=
  ⟨⟨Trails.start d False headerLines anyWidth, rfl, rfl, rfl, rfl⟩, rfl⟩

namespace Beside

theorem records_eq (h : Beside d trimmed t s) : t.splitter.records = s.splitter.records :=
  (Trails.records_eq h.inStep.splitter).2

theorem dropLines (h : Beside d trimmed t s) (count : Nat) :
    Beside d trimmed (t.dropLines count) (s.dropLines count) := by
  have hdropped := Trails.dropBoth h.inStep.splitter count
  rw [← (dropLines_others t.splitter count).1, List.drop_nil] at hdropped
  exact ⟨⟨hdropped, h.inStep.chunkSize, h.inStep.unread, h.inStep.exhausted, h.inStep.mark⟩,
    (firstSize_dropLines _ _).trans h.untrimmed⟩

theorem trim (h : Beside d trimmed t s) : Beside d True t.trim s := by
  have hsame : Trails d [] 0 True t.splitter.state.openPart t.splitter s.splitter :=
    { h.inStep.splitter with
      room := h.inStep.splitter.room.imp_right fun hroom => ⟨trivial, hroom.2⟩ }
  obtain ⟨splitter, reserved, widest, htrim, hsplitter⟩ := t.exists_trim_eq
  rw [htrim]
  refine ⟨⟨?_, h.inStep.chunkSize, h.inStep.unread, h.inStep.exhausted, h.inStep.mark⟩, h.untrimmed⟩
  obtain rfl | ⟨size, rfl⟩ := hsplitter
  · exact hsame
  · exact hsame.resize h.untrimmed size

theorem agree (h : Beside d trimmed t s) (limit : Option Nat) (feed : Feed) :
    Progress.Agree (Trails d [] 0 trimmed) (RoomExcuse 0 trimmed) (t.tokenize d limit feed)
      (s.tokenize d limit feed) :=
  agree_tokenize (Trails.lockstep d [] 0 trimmed)
    (fun hreach => by unfold Splitter.reached; rw [hreach.size.2, Nat.sub_zero]) feed h.inStep

theorem comesTo_tokenize {more : Prop} {later : List Request} (h : Beside d trimmed t s)
    (limit : Option Nat) (feed : Feed) (hmore : trimmed → more)
    (hlater : ∀ {s' : Session}, (t.tokenize d limit feed).fault = none →
      Beside d trimmed (t.tokenize d limit feed).session s' →
        ComesTo more ((t.tokenize d limit feed).session.inSteps d later
          (t.tokenize d limit feed).feed) (s'.tokenizeAll d (t.tokenize d limit feed).feed)) :
    ComesTo more
      (match (t.tokenize d limit feed).fault with
        | some _ => ([], t.tokenize d limit feed)
        | none => (t.tokenize d limit feed).session.inSteps d later (t.tokenize d limit feed).feed)
      (s.tokenizeAll d feed) := by
  have hresumes := tokenize_resume d limit feed s
  have hsize := (((kept_firstSize d 2).maintains limit).tokenize feed ⟨rfl, h.untrimmed⟩).1.2
  have hagree := h.agree limit feed
  generalize t.tokenize d limit feed = p at hagree hlater
  generalize s.tokenize d limit feed = q at hagree hresumes hsize
  cases hagree with
  | ok _ hin => exact (hlater rfl ⟨hin, hsize⟩).congr (hresumes.1 rfl)
  | fault _ _ => exact .of_fault (hresumes.2 _ rfl) (.inl rfl)
  | excused hq hexcuse =>
    exact .of_fault (hresumes.2 _ hq)
      (.inr ⟨hexcuse.2, .inr (hmore (hexcuse.1.resolve_left (Nat.lt_irrefl 0)))⟩)

theorem comesTo (h : Beside d trimmed t s) (requests : List Request) (feed : Feed)
    (hw : t.KeepsWidth d requests feed) :
    ComesTo (trimmed ∨ t.Trims d requests feed) (t.inSteps d requests feed)
      (s.tokenizeAll d feed) := by
  induction requests generalizing trimmed t s feed with
  | nil => exact (ComesTo.of_agree (h.agree none feed)).mono .inl
  | cons request later ih =>
    obtain ⟨hlast, hlater⟩ := hw
    cases request with
    | drop count =>
      have hrest := (ih (h.dropLines count) feed (hlater rfl)).mono
        (Or.imp_right fun hs => (⟨rfl, hs⟩ : t.Trims d (.drop count :: later) feed))
      show ComesTo _ (t.splitter.records.take count ++ ((t.dropLines count).inSteps d later feed).1,
        ((t.dropLines count).inSteps d later feed).2) _
      rw [h.records_eq]
      refine .of_drop feed ?_ ?_ hrest
      · rw [Steady, ← h.inStep.splitter.state]
        exact h.inStep.splitter.self
      · have hsize := h.inStep.splitter.size.2
        rw [← h.inStep.splitter.anyWidth, ← Nat.sub_zero s.splitter.lines.size, ← hsize]
        exact hlast count rfl
    | trim => exact (ih h.trim feed (hlater rfl)).mono fun _ => .inr trivial
    | all =>
      refine h.comesTo_tokenize none feed .inl fun hp hnext => ?_
      exact (ih hnext _ (hlater hp)).mono (Or.imp_right fun hs => ⟨hp, hs⟩)
    | lines count =>
      simp only [Request.perform, tokenizeLines] at hlater ⊢
      unfold inSteps Trims
      simp only [Request.perform, tokenizeLines]
      split_ifs at hlater ⊢
      · exact (ih h feed (hlater rfl)).mono (Or.imp_right fun hs => ⟨rfl, hs⟩)
      · refine h.comesTo_tokenize _ feed .inl fun hp hnext => ?_
        exact (ih hnext _ (hlater hp)).mono (Or.imp_right fun hs => ⟨hp, hs⟩)

end Beside

/-- Lines that are asked for in steps, with some given up in between and buffers trimmed, are those
of one run over the whole input, with the same warnings and the same count of lines, as long as no
line is given up that says how wide the next one has to be. A run that fails fails in steps as well
and with the same fault, except that the room for a short line depends on the lines before it that
are still there and on what was trimmed. No request for lines adds more of them than it should. -/
theorem inSteps_eq_whole (d : Dialect) (headerLines : Nat) (anyWidth : Bool) (chunkSize : Nat)
    (requests : List Request) (feed : Feed)
    (hw : (start headerLines anyWidth chunkSize).KeepsWidth d requests feed) :
    let s := start headerLines anyWidth chunkSize
    let run := s.inSteps d requests feed
    let whole := s.tokenizeAll d feed
    (whole.fault = none → run.2.fault = none ∧
      run.1 ++ run.2.session.splitter.records = whole.session.splitter.records ∧
      run.2.session.splitter.warnings = whole.session.splitter.warnings ∧
      run.2.session.splitter.fileLines = whole.session.splitter.fileLines) ∧
    (∀ fault, whole.fault = some fault →
      run.2.fault = some fault ∨
        fault.isRoomFault = true ∧ (run.1 ≠ [] ∨ s.Trims d requests feed)) ∧
    ∀ (s : Session) (count : Nat) (feed : Feed),
      let p := s.tokenizeLines d count feed
      p.session.splitter.lines.size ≤ s.splitter.lines.size + count ∧
        (s.splitter.lines.size + count < wordLimit → p.fault = none →
          p.session.isFinished = false →
            p.session.splitter.lines.size = s.splitter.lines.size + count) := by
  intro s run whole
  have hcomes := ((beside_start d headerLines anyWidth chunkSize).comesTo requests feed hw).mono
    (Or.resolve_left · id)
  exact ⟨hcomes.ok, hcomes.fault, fun s count feed => tokenizeLines_size d count feed s⟩

theorem inSteps_eq_whole_of_four_lines :
    let s := start 1 false 3
    let requests : List Request := [.lines 2, .drop 1, .trim, .lines 1, .drop 1]
    let feed := Feed.stream "a,b,c\n1,2\r,3\n\n4".toUTF8.toList
    s.KeepsWidth {} requests feed ∧ (s.inSteps {} requests feed).1.length = 2 ∧
      (s.inSteps {} requests feed).1 ++ (s.inSteps {} requests feed).2.session.splitter.records =
        (s.tokenizeAll {} feed).session.splitter.records := by
  intro s requests feed
  have hw : s.KeepsWidth {} requests feed := by decide +kernel
  have hwhole : (s.tokenizeAll {} feed).fault = none := by decide +kernel
  exact ⟨hw, by decide +kernel, ((inSteps_eq_whole {} 1 false 3 requests feed hw).1 hwhole).2.1⟩

/-- The line after the heading is to have all the fields that can be counted: with the heading still
there they are too many to count, without it they only outgrow the table. -/
theorem inSteps_fault_differs :
    let d : Dialect := { expectedFields := some 0xffffffffffffffff }
    let s := start 1 false 262144
    let requests : List Request := [.lines 1, .drop 1]
    let feed := Feed.memory "a\nb\n".toUTF8.toList
    s.KeepsWidth d requests feed ∧
      (s.tokenizeAll d feed).fault = some (.overflow .fieldCount) ∧
      (s.inSteps d requests feed).2.fault = some (.overflow .fieldTable) := by
  decide +kernel

/-- A trimmed table has three entries and can be doubled to fewer than a machine word counts. -/
example :
    let d : Dialect := { expectedFields := some 0xa000000000000000 }
    let s := start 1 false 262144
    let requests : List Request := [.lines 1, .trim]
    let feed := Feed.memory "a,b\nc\n".toUTF8.toList
    (s.tokenizeAll d feed).fault = some (.overflow .fieldTable) ∧
      (s.inSteps d requests feed).2.fault =
        some (.memoryExhausted (.fieldTable 0xc000000000000000)) := by
  decide +kernel

end Session

end TypedTable.Csv
