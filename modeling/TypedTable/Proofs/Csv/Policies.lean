import TypedTable.Proofs.Csv.Warnings

/-!
# Policies for bad lines

Runs under two policies are the same run up to the first line with too many fields. One that fails
there has committed what the others had committed by then; one that warns and one that passes over
the line differ in the warnings.
-/

set_option autoImplicit false

namespace TypedTable.Csv

namespace Splitter

variable {d : Dialect} {c : UInt8} {s t u : Splitter}

/-! ## Later splitters -/

/-- `t` is later than `s`: lines were added, with the numbers of physical lines in between. -/
structure Follows (s t : Splitter) : Prop where
  fileLines : s.fileLines ≤ t.fileLines
  lines : ∃ more, t.lines.toList = s.lines.toList ++ more ∧
    ∀ line ∈ more, s.fileLines < line.number ∧ line.number ≤ t.fileLines
  warnings : s.warnings.toList <+: t.warnings.toList

namespace Follows

theorem of_same (hlines : t.lines = s.lines) (hfile : s.fileLines ≤ t.fileLines)
    (hwarnings : t.warnings = s.warnings) : s.Follows t where
  fileLines := hfile
  lines := ⟨[], by rw [hlines, List.append_nil], fun _ hl => (List.not_mem_nil hl).elim⟩
  warnings := hwarnings ▸ List.prefix_rfl

theorem refl (s : Splitter) : s.Follows s := of_same rfl (Nat.le_refl _) rfl

theorem trans (hst : s.Follows t) (htu : t.Follows u) : s.Follows u := by
  obtain ⟨first, hfirst, hnumbers⟩ := hst.lines
  obtain ⟨later, hlater, hothers⟩ := htu.lines
  refine ⟨Nat.le_trans hst.fileLines htu.fileLines, ⟨first ++ later, ?_, fun line hl => ?_⟩,
    hst.warnings.trans htu.warnings⟩
  · rw [hlater, hfirst, List.append_assoc]
  · rcases List.mem_append.1 hl with hl | hl
    · exact ⟨(hnumbers line hl).1, Nat.le_trans (hnumbers line hl).2 htu.fileLines⟩
    · exact ⟨Nat.lt_of_le_of_lt hst.fileLines (hothers line hl).1, (hothers line hl).2⟩

theorem commitLine (s : Splitter) : s.Follows s.commitLine where
  fileLines := Nat.le_succ _
  lines := ⟨[_], Array.toList_push, fun line hl => by
    obtain rfl := List.mem_singleton.1 hl
    exact ⟨Nat.lt_succ_self _, Nat.le_refl _⟩⟩
  warnings := List.prefix_rfl

theorem refused (s : Splitter) : s.Follows s.refused := of_same rfl (Nat.le_succ _) rfl

theorem warned (s : Splitter) (expected : Nat) : s.Follows (s.warned expected) where
  fileLines := Nat.le_succ _
  lines := (refused s).lines
  warnings := by
    rw [Splitter.warned, Array.toList_push]
    exact List.prefix_append _ _

theorem rejectLine (d : Dialect) (s : Splitter) (expected : Nat) :
    Yields s.Follows (s.Follows ·.left) (s.rejectLine d expected) := by
  unfold Splitter.rejectLine
  cases d.onBadLines with
  | error => exact refused s
  | warn => exact warned s expected
  | skip => exact refused s

theorem endLine (d : Dialect) (s : Splitter) :
    Yields s.Follows (s.Follows ·.left) (s.endLine d) := by
  unfold Splitter.endLine
  split_ifs
  · exact refused s
  cases s.requiredFields d with
  | none => exact commitLine s
  | some expected =>
    dsimp only
    split_ifs
    · exact rejectLine d s expected
    · have hpadded := padLine_eq s (expected - s.openFields)
      cases hp : s.padLine (expected - s.openFields) with
      | error halted =>
        rw [hp] at hpadded
        exact hpadded ▸ refl s
      | ok u =>
        rw [hp] at hpadded
        obtain ⟨stream, rfl⟩ := hpadded
        refine trans (t := { s with stream := stream, openFields := _ }) ?_ (commitLine _)
        exact of_same rfl (Nat.le_refl _) rfl

theorem of_reaches (h : Reaches d s t) : s.Follows t := by
  induction h with
  | refl => exact refl s
  | countLine _ ih => exact ih.trans (of_same rfl (Nat.le_succ _) rfl)
  | @endLine t u _ he ih =>
    have hline := endLine d t
    rw [he] at hline
    exact ih.trans hline
  | enter _ _ _ ih | push _ _ ih | closeField _ ih | discardLine _ ih | hold _ _ ih =>
    exact ih.trans (of_same rfl (Nat.le_refl _) rfl)

theorem of_moved {result : Except (Halted Splitter) Splitter} (h : Moved d s result) :
    Yields s.Follows (s.Follows ·.left) result := by
  cases result with
  | ok t => exact of_reaches h
  | error halted =>
    obtain ⟨t, hst, he⟩ := h
    have hline := endLine d t
    rw [he] at hline
    exact (of_reaches hst).trans hline

theorem finish (d : Dialect) (s : Splitter) :
    Yields s.Follows (s.Follows ·.left) (s.finish d) := by
  have hline (t : Splitter) (hst : s.Follows t) :
      Yields s.Follows (s.Follows ·.left) (t.endLine d >>= fun u => .ok (u.enter .finished)) := by
    have hended := endLine d t
    cases he : t.endLine d with
    | ok u =>
      rw [he] at hended
      exact hst.trans (hended.trans (of_same rfl (Nat.le_refl _) rfl))
    | error halted =>
      rw [he] at hended
      exact hst.trans hended
  unfold Splitter.finish endLastLine
  cases s.state with
  | lineStart | inBlanks | afterIgnoredReturn | inCommentLine | finished =>
    exact of_same rfl (Nat.le_refl _) rfl
  | inQuotes | escapedInQuotes | escaped => exact refl s
  | inField | fieldStart | afterQuote => exact hline s.closeField (of_same rfl (Nat.le_refl _) rfl)
  | _ => exact hline s (refl s)

end Follows

/-! ## Warning and failing -/

structure Continues (d : Dialect) (s t : Splitter) : Prop where
  follows : s.Follows t
  steady : Steady (Trails d s.records 0 False) t t

def Steadily (d : Dialect) (base : List (Nat × List (List UInt8))) :
    Except (Halted Splitter) Splitter → Prop :=
  Yields (fun t => Steady (Trails d base 0 False) t t)
    (fun halted => Steady (Trails d base 0 False) halted.left halted.left)

theorem steadily_of_agree {base : List (Nat × List (List UInt8))}
    {result : Except (Halted Splitter) Splitter}
    (h : Agree (Trails d base 0 False) (RoomExcuse 0 False) (Steady (Trails d base 0 False)) result result) :
    Steadily d base result := by
  have hself := h.self not_roomExcuse
  cases result with
  | ok t => exact hself
  | error halted => exact Trails.loosen hself (Halted.openPart_rank_le halted)

namespace Continues

theorem of_follows {result : Except (Halted Splitter) Splitter} (h : Continues d s t)
    (hf : Yields t.Follows (t.Follows ·.left) result)
    (hs : Agree (Trails d s.records 0 False) (RoomExcuse 0 False) (Steady (Trails d s.records 0 False)) result
      result) :
    Yields (Continues d s) (Continues d s ·.left) result := by
  have hsteady := steadily_of_agree hs
  cases result with
  | ok u => exact ⟨h.follows.trans hf, hsteady⟩
  | error halted => exact ⟨h.follows.trans hf, hsteady⟩

theorem accept (c : UInt8) (h : Continues d s t) :
    Yields (Continues d s) (Continues d s ·.left) (t.accept d c) :=
  h.of_follows (Follows.of_moved (moved_accept d c t)) ((Trails.lockstep d _ 0 False).accept c h.steady)

theorem readAll (bytes : List UInt8) (h : Continues d s t) :
    Yields (Continues d s) (Continues d s ·.left) (t.readAll d bytes) :=
  h.of_follows (Follows.of_moved (moved_readAll d bytes t))
    ((Trails.lockstep d _ 0 False).readAll bytes h.steady)

theorem finish (h : Continues d s t) :
    Yields (Continues d s) (Continues d s ·.left) (t.finish d) := by
  have hfinish := (Trails.lockstep d s.records 0 False).finish h.steady
  exact h.of_follows (Follows.finish d t)
    (hfinish.mono fun _ _ h => h.loosen (OpenPart.rank_nothing_le _))

theorem closeField (h : Continues d s t) (hstate : t.state = .fieldStart) :
    Continues d s t.closeField := by
  have hclosed := (Trails.lockstep d _ 0 False).closed h.steady
  refine ⟨h.follows.trans (.of_same rfl (Nat.le_refl _) rfl), hclosed.loosen ?_⟩
  rw [show t.closeField.state = .fieldStart from hstate]
  decide

end Continues

/-- Results of a run that warns and one that fails: nobody was warned and they are the same, or the
second one failed where the first one warned and went on. -/
inductive Diverges (d : Dialect) (s : Splitter) :
    Except (Halted Splitter) Splitter → Except (Halted Splitter) Splitter → Prop
  | same {result : Except (Halted Splitter) Splitter}
    (h : s.Silent result) : Diverges d s result result
  | refused {x : Except (Halted Splitter) Splitter} {t : Splitter} (expected : Nat)
    (hf : s.Follows t) (hw : t.warnings = s.warnings)
    (hx : Yields (Continues (d.withPolicy .warn) (t.warned expected))
      (Continues (d.withPolicy .warn) (t.warned expected) ·.left) x) :
    Diverges d s x (.error ⟨(t.refusal expected).fault, t.refused⟩)

namespace Diverges

variable {x y : Except (Halted Splitter) Splitter}
  {f g : Splitter → Except (Halted Splitter) Splitter}

/-- The same results from an earlier splitter without a warning in between. -/
theorem of_later (h : Diverges d t x y) (hfollows : s.Follows t) (hw : t.warnings = s.warnings) :
    Diverges d s x y := by
  cases h with
  | same h => exact .same (h.of_later hw)
  | refused expected hf hwarnings hx =>
    exact .refused expected (hfollows.trans hf) (hwarnings.trans hw) hx

theorem bind (h : Diverges d s x y) (hx : Yields s.Follows (s.Follows ·.left) x)
    (hfg : ∀ t, x = .ok t → Diverges d t (f t) (g t))
    (hf : ∀ u t, x = .ok t → Continues (d.withPolicy .warn) u t →
      Yields (Continues (d.withPolicy .warn) u) (Continues (d.withPolicy .warn) u ·.left) (f t)) :
    Diverges d s (x >>= f) (y >>= g) := by
  cases h with
  | same hsame =>
    cases x with
    | error halted => exact .same hsame
    | ok t =>
      have hwarnings : t.warnings = s.warnings := hsame
      exact (hfg t rfl).of_later hx hwarnings
  | refused expected hv hw hrest =>
    refine .refused expected hv hw ?_
    cases x with
    | error halted => exact hrest
    | ok t => exact hf _ t rfl hrest

theorem endLineTo {state : SplitState} (hfollows : s.Follows t) (hw : t.warnings = s.warnings)
    (hsteady : Steadily (d.withPolicy .warn) [] (t.endLineTo (d.withPolicy .warn) state)) :
    Diverges d s (t.endLineTo (d.withPolicy .warn) state)
      (t.endLineTo (d.withPolicy .error) state) := by
  rw [Splitter.endLineTo] at hsteady ⊢
  rw [Splitter.endLineTo]
  rcases endLine_withPolicy d t with ⟨expected, hline⟩ | ⟨result, hline, hwarnings⟩
  · rw [hline, rejectLine_warn] at hsteady ⊢
    rw [hline, rejectLine_error]
    exact .refused expected hfollows hw ⟨.of_same rfl (Nat.le_refl _) rfl, Trails.rebase hsteady⟩
  · rw [hline, hline]
    cases result with
    | ok u => exact .same (Silent.of_later hwarnings hw)
    | error halted => exact .same (Silent.of_later hwarnings hw)

theorem of_twin (h : Twin d .warn .error s x y)
    (hsteady : Steadily (d.withPolicy .warn) [] x) :
    Diverges d s x y := by
  cases h with
  | same h => exact .same h
  | halted h => exact .same h
  | line state h =>
    exact endLineTo (.of_same h.1 (Nat.le_of_eq h.2.1.symm) h.2.2) h.2.2 hsteady

theorem accept (c : UInt8) (h : Steady (Trails (d.withPolicy .warn) [] 0 False) s s) :
    Diverges d s (s.accept (d.withPolicy .warn) c) (s.accept (d.withPolicy .error) c) :=
  of_twin (twin_accept d _ _ c s) (steadily_of_agree ((Trails.lockstep _ _ _ _).accept c h))

theorem readByte (c : UInt8) (h : Steady (Trails (d.withPolicy .warn) [] 0 False) s s) :
    Diverges d s (s.readByte (d.withPolicy .warn) c) (s.readByte (d.withPolicy .error) c) := by
  by_cases hreturn : s.state = .afterReturn
  · have hsteady (state : SplitState) :
        Steadily (d.withPolicy .warn) [] (s.endLineTo (d.withPolicy .warn) state) :=
      steadily_of_agree ((Trails.lockstep _ _ _ _).endLineTo state h (by rw [hreturn]; decide)
        (Nat.le_refl _))
    have hline (state : SplitState) := endLineTo (d := d) (s := s) (.refl s) rfl (hsteady state)
    have hfollows {state : SplitState} (hf : state ≠ .finished) :=
      Follows.of_moved (moved_endLineTo (d := d.withPolicy .warn) (s := s) state hf .refl)
    have haccept {state : SplitState} {t : Splitter}
        (ht : s.endLineTo (d.withPolicy .warn) state = .ok t) :
        Diverges d t (t.accept (d.withPolicy .warn) c) (t.accept (d.withPolicy .error) c) := by
      have hstate := hsteady state
      rw [ht] at hstate
      exact accept c hstate
    rw [readByte_afterReturn _ c s hreturn, readByte_afterReturn _ c s hreturn]
    simp only [withPolicy_tests]
    split_ifs
    · exact hline _
    · exact (hline _).bind (hfollows (by simp)) (fun _ _ => .same rfl) fun _ _ ht hu =>
        hu.closeField (endLineTo_state ht)
    · exact (hline _).bind (hfollows (by simp)) (fun _ => haccept) fun _ _ _ hu => hu.accept c
    · exact (hline _).bind (hfollows (by simp)) (fun _ => haccept) fun _ _ _ hu => hu.accept c
  by_cases hi : s.state = .afterIgnoredReturn
  · rw [readByte_afterIgnoredReturn _ c s hi, readByte_afterIgnoredReturn _ c s hi]
    simp only [withPolicy_tests]
    split_ifs
    · exact .same rfl
    · have hnothing : Trails (d.withPolicy .warn) [] 0 False .nothing s s := by
        rw [Steady, hi] at h
        exact h
      exact (accept (s := s.enter .lineStart) c (hnothing.enter _)).of_later
        (.of_same rfl (Nat.le_refl _) rfl) rfl
  · rw [readByte_of_not_return _ c s hreturn hi, readByte_of_not_return _ c s hreturn hi]
    exact accept c h

theorem readAll (bytes : List UInt8) (h : Steady (Trails (d.withPolicy .warn) [] 0 False) s s) :
    Diverges d s (s.readAll (d.withPolicy .warn) bytes) (s.readAll (d.withPolicy .error) bytes) := by
  induction bytes generalizing s with
  | nil => exact .same rfl
  | cons c rest ih =>
    rw [readAll_cons, readAll_cons]
    refine (readByte c h).bind (Follows.of_moved (moved_readByte _ c s)) (fun t ht => ih ?_)
      fun _ _ _ hu => hu.readAll rest
    have hsteady := steadily_of_agree ((Trails.lockstep _ _ _ _).readByte c h)
    rwa [ht] at hsteady

end Diverges

/-- Up to the first line with too many fields it is all the same. There one run fails; the other one
keeps what was committed by then. -/
theorem readUntil_diverges (failed : Bool) (bytes : List UInt8)
    (h : Steady (Trails (d.withPolicy .warn) [] 0 False) s s) :
    Diverges d s (s.readUntil (d.withPolicy .warn) failed bytes)
      (s.readUntil (d.withPolicy .error) failed bytes) := by
  have hread := Diverges.readAll bytes h
  refine hread.bind (Follows.of_moved (moved_readAll _ bytes s)) (fun t ht => ?_) fun _ _ _ hu => ?_
  · split_ifs
    · exact .same rfl
    · have hsteady := steadily_of_agree ((Trails.lockstep _ _ _ _).readAll bytes h)
      rw [ht] at hsteady
      have hfinish := (Trails.lockstep (d.withPolicy .warn) [] 0 False).finish hsteady
      exact .of_twin (twin_finish d _ _ t) (steadily_of_agree
        (hfinish.mono fun _ _ h => h.loosen (OpenPart.rank_nothing_le _)))
  · split_ifs
    · exact hu
    · exact hu.finish

theorem records_numbers (s : Splitter) :
    s.records.map (·.1) = s.lines.toList.map (·.number) := by
  simp [records, record, Function.comp_def]

/-- The numbers of the lines before the refused one are less than its own, those of the lines after
it greater. -/
theorem Continues.records_eq {expected : Nat} (hs : s.lines = #[]) (hst : s.Follows t)
    (h : Continues d (t.warned expected) u) :
    t.refused.records <+: u.records ∧
      t.refused.records = u.records.filter (·.1 < (t.refusal expected).line) := by
  obtain ⟨before, hbefore, hless⟩ := hst.lines
  obtain ⟨more, hmore, hgreater⟩ := h.follows.lines
  have hbegins : t.refused.records <+: u.records := (Trails.records_eq h.steady).1
  refine ⟨hbegins, ?_⟩
  obtain ⟨later, hlater⟩ := hbegins
  have hfirst (record) (hr : record ∈ t.refused.records) :
      record.1 < (t.refusal expected).line := by
    have hnumber := List.mem_map_of_mem (f := (·.1)) hr
    rw [hs] at hbefore
    rw [records_numbers, show t.refused.lines.toList = before from hbefore] at hnumber
    obtain ⟨line, hl, hnumber⟩ := List.mem_map.1 hnumber
    exact hnumber ▸ Nat.lt_succ_of_le (hless line hl).2
  have hrest (record) (hr : record ∈ later) : (t.refusal expected).line < record.1 := by
    have hnumbers : later.map (·.1) = more.map (·.number) := by
      have hall := records_numbers u
      rw [← hlater, hmore, List.map_append, List.map_append, records_numbers] at hall
      exact List.append_cancel_left hall
    have hnumber := List.mem_map_of_mem (f := (·.1)) hr
    rw [hnumbers] at hnumber
    obtain ⟨line, hl, hnumber⟩ := List.mem_map.1 hnumber
    exact hnumber ▸ (hgreater line hl).1
  rw [← hlater, List.filter_append, List.filter_eq_self.2 (by simpa using hfirst),
    List.filter_eq_nil_iff.2 fun record hr => by simpa using Nat.le_of_lt (hrest record hr),
    List.append_nil]

/-! ## A run that does not fail -/

theorem endLineTo_of_error {state : SplitState} (p : BadLinePolicy)
    (h : s.endLineTo (d.withPolicy .error) state = .ok t) :
    s.endLineTo (d.withPolicy p) state = .ok t := by
  rcases endLine_withPolicy d s with ⟨expected, hline⟩ | ⟨result, hline, -⟩
  · rw [endLineTo, hline, rejectLine_error] at h
    cases h
  · rw [endLineTo, hline] at h ⊢
    exact h

theorem Twin.of_error {p : BadLinePolicy} {x y : Except (Halted Splitter) Splitter}
    (h : Twin d p .error s x y) (hy : y = .ok t) : x = .ok t := by
  cases h with
  | same _ => exact hy
  | halted _ => exact hy
  | line state _ => exact endLineTo_of_error p hy

theorem readByte_of_error (p : BadLinePolicy) (h : s.readByte (d.withPolicy .error) c = .ok t) :
    s.readByte (d.withPolicy p) c = .ok t := by
  have haccept {u : Splitter} (hu : u.accept (d.withPolicy .error) c = .ok t) :
      u.accept (d.withPolicy p) c = .ok t := (twin_accept d p .error c u).of_error hu
  by_cases hreturn : s.state = .afterReturn
  · rw [readByte_afterReturn _ c s hreturn] at h ⊢
    simp only [withPolicy_tests] at h ⊢
    split_ifs at h ⊢
    · exact endLineTo_of_error p h
    all_goals
      obtain ⟨u, hline, hu⟩ := bind_eq_ok_iff.1 h
      refine bind_eq_ok_iff.2 ⟨u, endLineTo_of_error p hline, ?_⟩
    · exact hu
    · exact haccept hu
    · exact haccept hu
  by_cases hi : s.state = .afterIgnoredReturn
  · rw [readByte_afterIgnoredReturn _ c s hi] at h ⊢
    simp only [withPolicy_tests] at h ⊢
    split_ifs at h ⊢
    · exact h
    · exact haccept h
  · rw [readByte_of_not_return _ c s hreturn hi] at h ⊢
    exact haccept h

/-- What a run that fails at bad lines gets through, every run gets through alike. -/
theorem readAll_of_error (p : BadLinePolicy) {bytes : List UInt8}
    (h : s.readAll (d.withPolicy .error) bytes = .ok t) :
    s.readAll (d.withPolicy p) bytes = .ok t := by
  induction bytes generalizing s with
  | nil => exact h
  | cons c rest ih =>
    rw [readAll_cons] at h ⊢
    obtain ⟨u, hbyte, hu⟩ := bind_eq_ok_iff.1 h
    exact bind_eq_ok_iff.2 ⟨u, readByte_of_error p hbyte, ih hu⟩

end Splitter

namespace Session

open Splitter

variable {d : Dialect} {s t : Session}

theorem digest_of_error (p : BadLinePolicy) (h : s.digest (d.withPolicy .error) none = .ok t) :
    s.digest (d.withPolicy p) none = .ok t := by
  rw [digest_eq, scan_none] at h ⊢
  split_ifs at h ⊢
  · exact h
  · cases hr : s.splitter.readAll (d.withPolicy .error) s.settleMark.unread with
    | error halted =>
      rw [hr] at h
      cases h
    | ok u =>
      rw [hr] at h
      rw [readAll_of_error p hr]
      exact h

theorem conclude_of_error (p : BadLinePolicy)
    (h : s.conclude (d.withPolicy .error) none = .ok t) :
    s.conclude (d.withPolicy p) none = .ok t := by
  rw [conclude_eq] at h ⊢
  obtain ⟨next, hdigest, hnext⟩ := bind_eq_ok_iff.1 h
  refine bind_eq_ok_iff.2 ⟨next, digest_of_error p hdigest, ?_⟩
  simp only [endInput, reached, Bool.false_eq_true, if_false] at hnext ⊢
  cases hf : next.splitter.finish (d.withPolicy .error) with
  | error halted =>
    rw [hf] at hnext
    cases hnext
  | ok u =>
    rw [hf] at hnext
    rw [(twin_finish d p .error next.splitter).of_error hf]
    exact hnext

theorem progress_of_error {e : Dialect} (feed : Feed)
    (hsame : ∀ t, s.conclude d none = .ok t → s.conclude e none = .ok t)
    (h : (progress feed (s.conclude d none)).fault = none) :
    progress feed (s.conclude e none) = progress feed (s.conclude d none) := by
  cases hc : s.conclude d none with
  | ok t => rw [hsame t hc]
  | error halted =>
    rw [hc] at h
    cases h

theorem pull_of_error (p : BadLinePolicy) (feed : Feed)
    (h : (s.pull (d.withPolicy .error) none feed).fault = none) :
    s.pull (d.withPolicy p) none feed = s.pull (d.withPolicy .error) none feed := by
  have hconclude (s : Session) (later : Feed) := progress_of_error (s := s) later
    fun _ => conclude_of_error (d := d) p
  induction hw : feed.weight using Nat.strongRecOn generalizing feed s with
  | _ weight ih =>
    cases hsettled : s.isSettled none with
    | true => rw [pull, pull, if_pos hsettled, if_pos hsettled]
    | false =>
      rw [pull_of_unsettled feed hsettled] at h ⊢
      rw [pull_of_unsettled feed hsettled]
      split_ifs at h ⊢
      · exact hconclude s feed h
      cases hread : (feed.read s.chunkSize).1 with
      | failure text => rfl
      | endOfInput =>
        rw [hread] at h
        exact hconclude _ _ h
      | bytes piece =>
        rw [hread] at h
        cases piece with
        | nil => exact hconclude _ _ h
        | cons byte piece =>
          have hless := hw ▸ Feed.weight_read_lt hread (List.cons_ne_nil byte piece)
          dsimp only at h ⊢
          cases hd : digest (d.withPolicy .error) none { s with unread := byte :: piece } with
          | error halted =>
            rw [hd] at h
            cases h
          | ok next =>
            rw [hd] at h
            rw [digest_of_error p hd]
            exact ih _ hless _ h rfl

/-! ## What a session hands on -/

def Handed (p : Progress) (stop : Option String) : Except (Halted Splitter) Splitter → Prop :=
  Yields (fun t => p.outcome = (stop.map .readFailed, t))
    (fun halted => p.outcome = (some halted.fault, halted.left))

section Handed

variable {p q : Progress} {stop : Option String} {x y : Except (Halted Splitter) Splitter}

theorem Handed.muted (hp : Handed p stop x) (hq : Handed q stop y)
    (h : AgreeMuted x y) {t : Splitter} (hsilent : t.Silent y) :
    q.fault = p.fault ∧
      q.session.splitter = { p.session.splitter with warnings := t.warnings } := by
  cases h with
  | @ok _ u h =>
    obtain ⟨warnings, rfl⟩ := h
    obtain ⟨hpf, hps⟩ := Prod.mk.inj hp
    obtain ⟨hqf, hqs⟩ := Prod.mk.inj hq
    replace hsilent : u.warnings = t.warnings := hsilent
    rw [hpf, hqf, hps, hqs, ← hsilent]
    exact ⟨rfl, rfl⟩
  | @error first second hf h =>
    obtain ⟨warnings, hleft⟩ := h
    obtain ⟨hpf, hps⟩ := Prod.mk.inj hp
    obtain ⟨hqf, hqs⟩ := Prod.mk.inj hq
    replace hsilent : second.left.warnings = t.warnings := hsilent
    rw [hpf, hqf, hps, hqs, hf, hleft, ← hsilent]
    exact ⟨rfl, rfl⟩
  | excused h => exact h.elim

/-- Runs of which one fails where the other one warns, from a splitter without lines or warnings. -/
theorem Handed.diverges {t : Splitter} (hp : Handed p stop x) (hq : Handed q stop y)
    (h : Diverges d t x y) (hlines : t.lines = #[]) (hwarnings : t.warnings = #[]) :
    (q.fault = none ↔ p.fault = none ∧ p.session.splitter.warnings = #[]) ∧
    ∀ first, p.session.splitter.warnings[0]? = some first →
      q.fault = some first.fault ∧
      q.session.splitter.records <+: p.session.splitter.records ∧
      q.session.splitter.records = p.session.splitter.records.filter (·.1 < first.line) := by
  cases h with
  | same hsilent =>
    have hnone : p.session.splitter.warnings = #[] ∧ q.fault = p.fault := by
      cases x with
      | ok u | error u =>
        obtain ⟨hpf, hps⟩ := Prod.mk.inj hp
        obtain ⟨hqf, hqs⟩ := Prod.mk.inj hq
        rw [hps, hpf, hqf]
        exact ⟨Eq.trans hsilent hwarnings, rfl⟩
    refine ⟨by simp [hnone.1, hnone.2], fun first hfirst => ?_⟩
    simp [hnone.1] at hfirst
  | @refused u expected hf hw hx =>
    obtain ⟨hqf, hqs⟩ := Prod.mk.inj hq
    have hcontinues : Continues (d.withPolicy .warn) (u.warned expected) p.session.splitter := by
      cases x with
      | ok v | error v => exact (Prod.mk.inj hp).2 ▸ hx
    have hfirst : p.session.splitter.warnings[0]? = some (u.refusal expected) := by
      obtain ⟨later, hlater⟩ := hcontinues.follows.warnings
      rw [← Array.getElem?_toList, ← hlater, Splitter.warned, hw, hwarnings]
      rfl
    refine ⟨⟨fun hnone => ?_, fun hnone => ?_⟩, fun first h => ?_⟩
    · cases hqf.symm.trans hnone
    · rw [hnone.2] at hfirst
      cases hfirst
    · rw [hqf, hqs]
      obtain rfl := Option.some.inj (hfirst.symm.trans h)
      exact ⟨rfl, hcontinues.records_eq hlines hf⟩

end Handed

theorem handed_conclude (hs : s.Waiting) (rest : Feed) (d : Dialect) (u : Splitter)
    (reserved widest : Nat) :
    Handed (progress rest (({ s with
        splitter := u, exhausted := true, reserved := reserved, widest := widest } :
          Session).conclude d none)) none
      (u.readUntil d false (byteOrderMark.take (s.mark.getD 0))) := by
  rw [conclude_eq, digest_of_no_mark none rfl, scan_none]
  simp only [releaseMark, hs.unread, List.append_nil, readUntil, Bool.false_eq_true, if_false]
  cases u.readAll d (byteOrderMark.take (s.mark.getD 0)) with
  | error halted => rfl
  | ok t =>
    simp only [Functor.map, Except.map, ok_bind, endInput, reached, Bool.false_eq_true, if_false]
    cases t.finish d <;> rfl

theorem settleMark_with (s : Session) (u : Splitter) (reserved widest : Nat) :
    ({ s with splitter := u, reserved := reserved, widest := widest } : Session).settleMark =
      { s.settleMark with splitter := u, reserved := reserved, widest := widest } := by
  unfold settleMark
  dsimp only
  split
  · rfl
  · split_ifs <;> rfl

/-- What is left of a piece behind the mark is read by whatever splitter the session has. -/
theorem exists_digest_eq (d : Dialect) (u : Splitter) (reserved widest : Nat)
    {piece unread : List UInt8} {mark : Option Nat}
    (hsettle : ({ s with unread := piece } : Session).settleMark =
      { s with unread := unread, mark := mark })
    (hnothing : mark.isSome = true → unread = []) :
    ∃ asked : Nat, digest d none { s with
        splitter := u, unread := piece, reserved := reserved, widest := widest } =
      ((u.readAll d unread).map fun t => ({ s with
        splitter := t, unread := [], mark := mark, reserved := asked, widest := widest } :
          Session)).mapError fun halted => ⟨halted.fault, { s with
            splitter := halted.left, unread := unread, mark := mark, reserved := asked
            widest := widest }⟩ := by
  have hsettled := settleMark_with { s with unread := piece } u reserved widest
  rw [hsettle] at hsettled
  simp only [digest_eq, hsettled, scan_none]
  split_ifs with hopen
  · rw [hnothing hopen]
    exact ⟨reserved, rfl⟩
  · refine ⟨(makeRoom { s with
      splitter := u, unread := unread, mark := mark, reserved := reserved
      widest := widest }).reserved, ?_⟩
    cases u.readAll d unread <;> rfl

/-- What a waiting session hands to its splitter depends neither on the dialect nor on the splitter,
nor on the room that was asked for before. -/
theorem exists_handed (feed : Feed) (hs : s.Waiting) :
    ∃ (bytes : List UInt8) (stop : Option String),
      ∀ (d : Dialect) (u : Splitter) (reserved widest : Nat), u.state ≠ .finished →
        Handed (({ s with splitter := u, reserved := reserved, widest := widest } : Session).pull d
          none feed) stop (u.readUntil d stop.isSome bytes) := by
  -- by induction on what the feed still has; only its bytes and the mark say what is handed on
  induction hw : feed.weight using Nat.strongRecOn generalizing feed s with
  | _ weight ih =>
    have hunsettled {u : Splitter} (reserved widest : Nat) (hu : u.state ≠ .finished) :
        ({ s with splitter := u, reserved := reserved, widest := widest } : Session).isSettled
          none = false := by
      simpa [isSettled, isFinished, Splitter.isFinished, reached] using hu
    have hpull (d : Dialect) {u : Splitter} (reserved widest : Nat) (hu : u.state ≠ .finished) :=
      (pull_of_unsettled (d := d) feed (hunsettled reserved widest hu)).trans
        (if_neg (by simp [hs.open']))
    have hend := handed_conclude hs (feed.read s.chunkSize).2
    cases hread : (feed.read s.chunkSize).1 with
    | failure text =>
      simp only [hread] at hpull
      refine ⟨[], some text, fun d u reserved widest hu => ?_⟩
      rw [hpull d reserved widest hu]
      rfl
    | endOfInput =>
      simp only [hread] at hpull
      exact ⟨_, none, fun d u reserved widest hu =>
        hpull d reserved widest hu ▸ hend d u reserved widest⟩
    | bytes piece =>
      cases piece with
      | nil =>
        simp only [hread] at hpull
        exact ⟨_, none, fun d u reserved widest hu =>
          hpull d reserved widest hu ▸ hend d u reserved widest⟩
      | cons byte piece =>
        simp only [hread] at hpull
        have hless := hw ▸ Feed.weight_read_lt hread (List.cons_ne_nil byte piece)
        obtain ⟨unread, mark, hsettle, hmark⟩ := settleMark_piece (byte :: piece) hs
        have hnext : ({ s with unread := [], mark := mark } : Session).Waiting := by
          refine ⟨rfl, hs.open', hs.asks, ?_, hs.unfinished⟩
          rcases hmark with ⟨rfl, -⟩ | ⟨-, ⟨matched, rfl, hlt⟩, -⟩
          · simp
          · simpa using hlt
        obtain ⟨bytes, stop, hrest⟩ := ih _ hless (feed.read s.chunkSize).2 hnext rfl
        refine ⟨unread ++ bytes, stop, fun d u reserved widest hu => ?_⟩
        have hnothing : mark.isSome = true → unread = [] := fun hopen =>
          hmark.elim (fun h => by simp [h.1] at hopen) (·.1)
        obtain ⟨asked, hdigest⟩ := exists_digest_eq d u reserved widest hsettle hnothing
        rw [hpull d reserved widest hu, hdigest, readUntil, readAll_append, bind_assoc]
        have hmoved := moved_readAll d unread u
        cases hu : u.readAll d unread with
        | error halted => rfl
        | ok t =>
          rw [hu] at hmoved
          exact hrest d t asked widest (Reaches.state_ne_finished hmoved ‹_›)

/-- The three policies for lines with too many fields agree on everything else. A run that warns and
one that passes over such lines differ in the warnings only. A run that fails at them succeeds where
nobody is warned, and then all three end in one state; otherwise it fails at the first warning, with
the lines that were committed before it. -/
theorem tokenizeAll_policies (d : Dialect) (headerLines : Nat) (anyWidth : Bool) (chunkSize : Nat)
    (feed : Feed) :
    let run (policy : BadLinePolicy) :=
      (start headerLines anyWidth chunkSize).tokenizeAll (d.withPolicy policy) feed
    ((run .skip).fault = (run .warn).fault ∧ (run .skip).session.splitter =
      { (run .warn).session.splitter with warnings := #[] }) ∧
    ((run .error).fault = none ↔
      (run .warn).fault = none ∧ (run .warn).session.splitter.warnings = #[]) ∧
    ((run .error).fault = none →
      (run .warn).session = (run .error).session ∧ (run .skip).session = (run .error).session) ∧
    ∀ first, (run .warn).session.splitter.warnings[0]? = some first →
      (run .error).fault = some first.fault ∧
      (run .error).session.splitter.records <+: (run .warn).session.splitter.records ∧
      (run .error).session.splitter.records =
        (run .warn).session.splitter.records.filter (·.1 < first.line) := by
  intro run
  have hwaiting := waiting_start headerLines anyWidth chunkSize
  obtain ⟨bytes, stop, hhanded⟩ := exists_handed feed hwaiting
  have hpulled (policy : BadLinePolicy) : run policy =
      (start headerLines anyWidth chunkSize).pull (d.withPolicy policy) none feed :=
    tokenizeAll_waiting feed hwaiting
  have hrun (policy : BadLinePolicy) : Handed (run policy) stop
      (readUntil (d.withPolicy policy) stop.isSome bytes
        { headerLines := headerLines, anyWidth := anyWidth }) := by
    rw [hpulled]
    exact hhanded _ (start headerLines anyWidth chunkSize).splitter 0 0 (by simp [start])
  obtain ⟨hnone, hfirst⟩ := (hrun .warn).diverges (hrun .error)
    (readUntil_diverges (d := d) (s := { headerLines := headerLines, anyWidth := anyWidth }) _ bytes
      (Trails.start _ False headerLines anyWidth)) rfl rfl
  refine ⟨(hrun .warn).muted (hrun .skip) (readUntil_muted d _ bytes _) (readUntil_silent _ bytes _),
    hnone, fun herror => ?_, hfirst⟩
  have hsame (policy : BadLinePolicy) : run policy = run .error := by
    rw [hpulled] at herror ⊢
    rw [hpulled]
    exact pull_of_error policy feed herror
  exact ⟨congrArg (·.session) (hsame .warn), congrArg (·.session) (hsame .skip)⟩

/-- Lines 2 and 5 have too many fields; without them nobody warns. -/
theorem tokenizeAll_policies_two_refused :
    let run (text : String) (policy : BadLinePolicy) :=
      (start 0 false 4).tokenizeAll (({} : Dialect).withPolicy policy) (.stream text.toUTF8.toList)
    let bad := run "a,b\n1,2,3\nc\n#\n4,\"5\n6\",7\nd,e"
    let good := run "a,b\nc\n#\nd,e"
    (bad .warn).session.splitter.warnings = #[⟨2, 2, 3⟩, ⟨5, 2, 3⟩] ∧
    (bad .error).fault = some (.malformed (.tooManyFields 2 2 3)) ∧
    (bad .error).session.splitter.records =
      (bad .warn).session.splitter.records.filter (·.1 < 2) ∧
    (good .error).fault = none ∧ (good .warn).session = (good .error).session := by
  intro run bad good
  have hwarnings : (bad .warn).session.splitter.warnings = #[⟨2, 2, 3⟩, ⟨5, 2, 3⟩] := by
    decide +kernel
  have hgood : (good .error).fault = none := by decide +kernel
  have hbad := (tokenizeAll_policies {} 0 false 4 _).2.2.2 ⟨2, 2, 3⟩ (congrArg (·[0]?) hwarnings)
  exact ⟨hwarnings, hbad.1, hbad.2.2, hgood, ((tokenizeAll_policies {} 0 false 4 _).2.2.1 hgood).1⟩

end Session

end TypedTable.Csv
