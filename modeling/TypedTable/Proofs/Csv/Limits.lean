import TypedTable.Proofs.Csv.InStep
import TypedTable.Proofs.Csv.Pieces

/-!
# Stopping at a limit of lines

A session that stopped at a limit of lines goes on as if it had not stopped: what is left unread is
all that was not split. No byte ends more than one line before the limit is looked at again, so the
limit is met exactly unless the input ends before.
-/

set_option autoImplicit false

namespace TypedTable.Csv

namespace Splitter

variable {d : Dialect} {s t : Splitter} {c : UInt8} {usedUp : Bool}

/-! ## Going on -/

theorem endLineTo_state {state : SplitState} (h : s.endLineTo d state = .ok t) :
    t.state = state := by
  obtain ⟨u, -, hu⟩ := bind_eq_ok_iff.1 h
  cases hu
  rfl

/-- A byte that is not used up finds no carriage return unsettled. -/
theorem settleReturn_state (h : s.settleReturn d c = .ok (t, false)) :
    t.state ≠ .afterReturn ∧ t.state ≠ .afterIgnoredReturn := by
  unfold settleReturn at h
  split at h
  · split_ifs at h
    · obtain ⟨u, -, hu⟩ := bind_eq_ok_iff.1 h
      cases hu
    · obtain ⟨u, -, hu⟩ := bind_eq_ok_iff.1 h
      cases hu
    · obtain ⟨u, hu, ht⟩ := bind_eq_ok_iff.1 h
      cases ht
      rw [endLineTo_state hu]
      simp
    · obtain ⟨u, hu, ht⟩ := bind_eq_ok_iff.1 h
      cases ht
      rw [endLineTo_state hu]
      simp
  · obtain ⟨ht, -⟩ := Prod.mk.inj (Except.ok.inj h)
    rw [← ht]
    simp [enter]
  · cases h
    exact ⟨‹_›, ‹_›⟩

theorem settleReturn_settled (h : s.settleReturn d c = .ok (t, false)) :
    t.settleReturn d c = .ok (t, false) :=
  settleReturn_of_not_return d c t (settleReturn_state h).1 (settleReturn_state h).2

theorem scan_cons (d : Dialect) (limit : Option Nat) (c : UInt8) (rest : List UInt8)
    (s : Splitter) :
    s.scan d limit (c :: rest) =
      if s.reached limit then .ok (s, c :: rest)
      else s.settleReturn d c >>= fun settled =>
        if settled.2 then settled.1.scan d limit rest
        else if settled.1.reached limit then .ok (settled.1, c :: rest)
        else settled.1.accept d c >>= fun t => t.scan d limit rest := by
  rw [scan]

theorem readAll_settled (rest : List UInt8) (h : s.settleReturn d c = .ok (t, usedUp)) :
    s.readAll d (c :: rest) =
      if usedUp then t.readAll d rest else t.accept d c >>= readAll d rest := by
  rw [readAll_cons, readByte, h]
  cases usedUp <;> rfl

/-- What a scan with a limit leaves unread is what is read next without one. -/
theorem scan_resume (d : Dialect) (limit : Option Nat) (bytes : List UInt8) (s : Splitter) :
    Yields (fun result => result.1.readAll d result.2 = s.readAll d bytes ∧
        (result.2 = [] ∨ result.1.reached limit = true))
      (fun halted => s.readAll d bytes = .error halted) (s.scan d limit bytes) := by
  induction bytes generalizing s with
  | nil => exact ⟨rfl, .inl rfl⟩
  | cons c rest ih =>
    rw [scan_cons]
    split_ifs with hreached
    · exact ⟨rfl, .inr hreached⟩
    cases hs : s.settleReturn d c with
    | error halted =>
      show s.readAll d (c :: rest) = .error halted
      rw [readAll_cons, readByte, hs]
      rfl
    | ok settled =>
      obtain ⟨t, usedUp⟩ := settled
      rw [readAll_settled rest hs]
      dsimp only [ok_bind]
      cases usedUp with
      | true => exact ih t
      | false =>
        simp only [Bool.false_eq_true, if_false]
        split_ifs with ht
        · exact ⟨readAll_settled rest (settleReturn_settled hs), .inr ht⟩
        · cases ha : t.accept d c with
          | error halted => rfl
          | ok u => exact ih u

theorem endLineTo_reaches {state : SplitState} (hf : state ≠ .finished)
    (h : s.endLineTo d state = .ok t) : Reaches d s t := by
  have hmoved := moved_endLineTo (s := s) state hf (d := d) .refl
  rwa [h] at hmoved

theorem settleReturn_reaches (h : s.settleReturn d c = .ok (t, usedUp)) : Reaches d s t := by
  unfold settleReturn at h
  split at h
  · split_ifs at h
    · obtain ⟨u, hu, ht⟩ := bind_eq_ok_iff.1 h
      cases ht
      exact endLineTo_reaches (by simp) hu
    · obtain ⟨u, hu, ht⟩ := bind_eq_ok_iff.1 h
      cases ht
      exact (endLineTo_reaches (by simp) hu).closeField
    · obtain ⟨u, hu, ht⟩ := bind_eq_ok_iff.1 h
      cases ht
      exact endLineTo_reaches (by simp) hu
    · obtain ⟨u, hu, ht⟩ := bind_eq_ok_iff.1 h
      cases ht
      exact endLineTo_reaches (by simp) hu
  · cases h
    exact Reaches.refl.enter _ (by simp)
  · cases h
    exact Reaches.refl

theorem scan_unfinished (d : Dialect) (limit : Option Nat) (bytes : List UInt8) {s : Splitter}
    (h : s.state ≠ .finished) :
    Yields (·.1.state ≠ .finished) (fun _ => True) (s.scan d limit bytes) := by
  induction bytes generalizing s with
  | nil => exact h
  | cons c rest ih =>
    rw [scan_cons]
    split_ifs
    · exact h
    cases hs : s.settleReturn d c with
    | error halted => trivial
    | ok settled =>
      obtain ⟨t, usedUp⟩ := settled
      have ht := (settleReturn_reaches hs).state_ne_finished h
      dsimp only [ok_bind]
      split_ifs
      · exact ih ht
      · exact ht
      · have hmoved := moved_accept d c t
        cases ha : t.accept d c with
        | error halted => trivial
        | ok u =>
          rw [ha] at hmoved
          exact ih (Reaches.state_ne_finished hmoved ht)

theorem finish_isFinished (h : s.finish d = .ok t) : t.isFinished = true := by
  obtain ⟨u, -, hu⟩ := bind_eq_ok_iff.1 h
  cases hu
  rfl

end Splitter

namespace Session

variable {d : Dialect} {limit : Option Nat} {s t : Session} {feed : Feed}

theorem settleMark_of_no_mark (h : s.mark = none) : s.settleMark = s := by
  unfold settleMark
  rw [h]

theorem digest_of_no_mark (limit : Option Nat) (h : s.mark = none) :
    s.digest d limit = match s.splitter.scan d limit s.unread with
      | .ok (splitter, rest) => .ok { s.makeRoom with splitter := splitter, unread := rest }
      | .error halted => .error ⟨halted.fault, { s.makeRoom with splitter := halted.left }⟩ := by
  rw [digest_eq, settleMark_of_no_mark h, h]
  rfl

/-- As long as the mark is open all bytes belong to it. -/
theorem settleMark_open {matched : Nat} (h : s.settleMark.mark = some matched) :
    s.settleMark.unread = [] ∧ matched < byteOrderMark.length := by
  cases hm : s.mark with
  | none =>
    rw [settleMark_of_no_mark hm, hm] at h
    cases h
  | some before =>
    simp only [settleMark, hm] at h ⊢
    split_ifs at h ⊢ with _ hopen
    cases h
    refine ⟨?_, hopen⟩
    rw [List.drop_eq_nil_iff]
    rw [List.length_drop] at hopen ⊢
    omega

theorem settleMark_of_drained {matched : Nat} (hu : s.unread = []) (hm : s.mark = some matched)
    (hlt : matched < byteOrderMark.length) : s.settleMark = s := by
  obtain ⟨splitter, chunkSize, unread, exhausted, mark, reserved, widest⟩ := s
  obtain rfl : unread = [] := hu
  obtain rfl : mark = some matched := hm
  simp [settleMark, hlt]

def Drained (d : Dialect) (s : Session) : Prop := s.digest d none = .ok s

theorem digest_resume (d : Dialect) (limit : Option Nat) (s : Session) :
    Yields (fun next => Agree (Splitter.Alone fun _ => True) (fun _ => False) (next.digest d none) (s.digest d none) ∧
        (next.Drained d ∨ next.splitter.reached limit = true))
      (fun halted => ∃ other, s.digest d none = .error other ∧ other.splitter = halted.splitter)
      (s.digest d limit) := by
  -- as long as the mark is open no byte is split, whatever the limit
  cases hm : s.settleMark.mark with
  | some matched =>
    have hdigest (t : Session) (limit : Option Nat) (h : t.settleMark.mark = some matched) :
        t.digest d limit = .ok t.settleMark := by
      rw [digest_eq, if_pos (by rw [h]; rfl)]
    obtain ⟨hunread, hlt⟩ := settleMark_open hm
    have hagain := settleMark_of_drained hunread hm hlt
    have hnext := hdigest s.settleMark none (by rw [hagain, hm])
    rw [hagain] at hnext
    rw [hdigest s limit hm, hdigest s none hm]
    refine ⟨?_, .inl hnext⟩
    rw [hnext]
    exact .ok ⟨⟨rfl, trivial⟩, rfl, rfl, rfl, rfl⟩
  | none =>
    have hdigest (limit : Option Nat) : s.digest d limit = s.settleMark.digest d limit := by
      rw [digest_of_no_mark limit hm, digest_eq, hm, splitter_settleMark]
      rfl
    rw [hdigest limit, hdigest none]
    generalize s.settleMark = t at hm
    rw [digest_of_no_mark limit hm, digest_of_no_mark none hm]
    have hresume := Splitter.scan_resume d limit t.unread t.splitter
    cases hs : t.splitter.scan d limit t.unread with
    | error halted =>
      rw [hs] at hresume
      rw [scan_none_error hresume]
      exact ⟨_, rfl, rfl⟩
    | ok result =>
      obtain ⟨splitter, rest⟩ := result
      rw [hs] at hresume
      obtain ⟨hread, hend⟩ := hresume
      dsimp only at hread hend ⊢
      have hnext := digest_of_no_mark (d := d)
        (s := { t.makeRoom with splitter := splitter, unread := rest }) none hm
      refine ⟨?_, ?_⟩
      · rw [hnext, Splitter.scan_none, Splitter.scan_none, hread]
        cases t.splitter.readAll d t.unread with
        | ok u => exact .ok ⟨⟨rfl, trivial⟩, rfl, rfl, rfl, rfl⟩
        | error halted => exact .error ⟨rfl, trivial⟩
      · rcases hend with rfl | hend
        · exact .inl hnext
        · exact .inr hend

theorem digest_unfinished (limit : Option Nat) (hf : s.isFinished = false) :
    Yields (·.isFinished = false) (fun _ => True) (s.digest d limit) := by
  rw [isFinished_eq_false_iff] at hf
  rw [digest_eq]
  split_ifs
  · exact isFinished_eq_false_iff.2 (splitter_settleMark s ▸ hf)
  · have hscan := Splitter.scan_unfinished d limit s.settleMark.unread hf
    cases hs : s.splitter.scan d limit s.settleMark.unread with
    | error halted => trivial
    | ok result =>
      rw [hs] at hscan
      exact isFinished_eq_false_iff.2 hscan

/-- What the whole run from `s` comes to is not changed by a part of it. -/
def Resumes (d : Dialect) (whole p : Progress) : Prop :=
  (p.fault = none → (p.session.tokenizeAll d p.feed).outcome = whole.outcome) ∧
    ∀ fault, p.fault = some fault → whole.fault = some fault

theorem Resumes.of_ok {whole : Progress} (h : (s.tokenizeAll d feed).outcome = whole.outcome) :
    Resumes d whole ⟨s, feed, none⟩ :=
  ⟨fun _ => h, fun fault hf => by cases hf⟩

theorem Resumes.congr {whole other p : Progress} (h : Resumes d whole p)
    (heq : whole.outcome = other.outcome) : Resumes d other p := by
  obtain ⟨hfault, -⟩ := Prod.mk.inj heq
  exact ⟨fun hp => (h.1 hp).trans heq, fun fault hp => hfault ▸ h.2 fault hp⟩

theorem tokenizeAll_of_finished (feed : Feed) (hf : s.isFinished = true) :
    s.tokenizeAll d feed = ⟨s, feed, none⟩ := by
  unfold tokenizeAll tokenize
  rw [if_pos (by simp [isSettled, hf])]

theorem tokenizeAll_of_unfinished (feed : Feed) (hf : s.isFinished = false) :
    s.tokenizeAll d feed = match s.digest d none with
      | .ok next => next.pull d none feed
      | .error halted => ⟨halted.left, feed, some halted.fault⟩ := by
  unfold tokenizeAll tokenize
  exact if_neg (by simp [isSettled, hf, Splitter.reached])

theorem agree_outcome {p q : Progress} (h : Progress.Agree (Splitter.Alone fun _ => True) (fun _ => False) p q) :
    p.outcome = q.outcome := by
  cases h with
  | ok _ h => exact Prod.ext rfl h.splitter.1
  | fault _ h => exact Prod.ext rfl h.1
  | excused _ h => exact h.elim

theorem tokenizeAll_congr (feed : Feed) (hs : s.isFinished = false) (ht : t.isFinished = false)
    (h : Agree (Splitter.Alone fun _ => True) (fun _ => False) (t.digest d none) (s.digest d none)) :
    (t.tokenizeAll d feed).outcome = (s.tokenizeAll d feed).outcome := by
  rw [tokenizeAll_of_unfinished feed hs, tokenizeAll_of_unfinished feed ht]
  generalize t.digest d none = first at h
  generalize s.digest d none = second at h
  cases h with
  | ok h => exact agree_outcome (agree_pull (Splitter.kept_true d).lockstep (fun _ => rfl) feed h)
  | error h => exact Prod.ext rfl h.1
  | excused h => exact h.elim

theorem endInput_outcome (limit : Option Nat) (hr : s.splitter.reached limit = false)
    (feed : Feed) :
    (progress feed (s.endInput d limit)).outcome = outcomeOf (s.splitter.finish d) := by
  rw [endInput, if_neg (by simp [hr])]
  cases s.splitter.finish d <;> rfl

theorem digest_endInput_outcome (hm : s.mark = none) (feed : Feed) :
    (progress feed (s.digest d none >>= endInput d none)).outcome =
      outcomeOf (s.splitter.readAll d s.unread >>= Splitter.finish d) := by
  rw [digest_of_no_mark none hm, Splitter.scan_none]
  cases s.splitter.readAll d s.unread with
  | error halted => rfl
  | ok t =>
    exact endInput_outcome (s := { s.makeRoom with splitter := t, unread := [] }) none rfl feed

theorem tokenizeAll_exhausted (feed : Feed) (hx : s.exhausted = true) (hm : s.mark = none)
    (hf : s.isFinished = false) :
    (s.tokenizeAll d feed).outcome =
      outcomeOf (s.splitter.readAll d s.unread >>= Splitter.finish d) := by
  rw [tokenizeAll_of_unfinished feed hf, digest_of_no_mark none hm]
  have hopen := Splitter.scan_unfinished d none s.unread (isFinished_eq_false_iff.1 hf)
  rw [Splitter.scan_none] at hopen ⊢
  cases hr : s.splitter.readAll d s.unread with
  | error halted => rfl
  | ok t =>
    rw [hr] at hopen
    replace hopen : t.state ≠ .finished := hopen
    have ht : ({ s.makeRoom with splitter := t, unread := [] } : Session).isFinished = false :=
      isFinished_eq_false_iff.2 hopen
    have hgoes : ({ s.makeRoom with splitter := t, unread := [] } : Session).isSettled none =
        false := by
      simp [isSettled, ht, Splitter.reached]
    show (pull d none feed { s.makeRoom with splitter := t, unread := [] }).outcome = _
    have hpull := (pull_of_unsettled (d := d) feed hgoes).trans (if_pos hx)
    rw [hpull, conclude_eq, digest_endInput_outcome rfl]
    simp only [releaseMark, makeRoom, hm]
    rfl

theorem conclude_resume (hx : s.exhausted = true) (hf : s.isFinished = false) (feed : Feed) :
    Resumes d (progress feed (s.conclude d none)) (progress feed (s.conclude d limit)) := by
  have hm : s.releaseMark.mark = none := rfl
  rw [conclude_eq, conclude_eq]
  replace hx : s.releaseMark.exhausted = true := hx
  replace hf : s.releaseMark.isFinished = false := hf
  generalize s.releaseMark = t at hm hx hf
  have hwhole := digest_endInput_outcome (d := d) hm feed
  have hresume := Splitter.scan_resume d limit t.unread t.splitter
  have hopen := Splitter.scan_unfinished d limit t.unread (isFinished_eq_false_iff.1 hf)
  rw [digest_of_no_mark limit hm]
  cases hs : t.splitter.scan d limit t.unread with
  | error halted =>
    rw [hs] at hresume
    rw [hresume] at hwhole
    refine ⟨fun hp => (by cases hp), fun fault hp => ?_⟩
    rw [← hp]
    exact (Prod.mk.inj hwhole).1
  | ok result =>
    obtain ⟨splitter, rest⟩ := result
    rw [hs] at hresume hopen
    obtain ⟨hread, hend⟩ := hresume
    dsimp only [ok_bind] at hread hend ⊢
    rw [← hread] at hwhole
    -- where the limit is reached the input has not ended yet, and the next request ends it
    cases hr : splitter.reached limit with
    | true =>
      have hstops : ({ t.makeRoom with splitter := splitter, unread := rest } : Session).endInput d
          limit = .ok { t.makeRoom with splitter := splitter, unread := rest } := if_pos hr
      rw [hstops]
      refine .of_ok ?_
      rw [tokenizeAll_exhausted (s := { t.makeRoom with splitter := splitter, unread := rest }) feed
        hx hm
        (isFinished_eq_false_iff.2 hopen), hwhole]
    | false =>
      obtain rfl : rest = [] := hend.resolve_right (by simp [hr])
      rw [endInput, if_neg (by simp [hr])]
      rw [Splitter.readAll_nil, ok_bind] at hwhole
      dsimp only
      cases hfinish : splitter.finish d with
      | error halted =>
        rw [hfinish] at hwhole
        refine ⟨fun hp => (by cases hp), fun fault hp => ?_⟩
        rw [← hp]
        exact (Prod.mk.inj hwhole).1
      | ok finished =>
        rw [hfinish] at hwhole
        refine .of_ok ?_
        rw [tokenizeAll_of_finished feed (Splitter.finish_isFinished hfinish), hwhole]
        rfl

/-- The unread bytes are split with the limit, and what comes after them as well. -/
theorem digest_pull_resume (feed : Feed) (hf : s.isFinished = false)
    (hpull : ∀ next : Session, next.Drained d ∨ next.splitter.reached limit = true →
      Resumes d (next.tokenizeAll d feed) (next.pull d limit feed)) :
    Resumes d (s.tokenizeAll d feed)
      (match s.digest d limit with
        | .ok next => next.pull d limit feed
        | .error halted => ⟨halted.left, feed, some halted.fault⟩) := by
  have hdigest := digest_resume d limit s
  have hopen := digest_unfinished (d := d) limit hf
  cases hs : s.digest d limit with
  | ok next =>
    rw [hs] at hdigest hopen
    exact (hpull next hdigest.2).congr (tokenizeAll_congr feed hf hopen hdigest.1)
  | error halted =>
    rw [hs] at hdigest
    obtain ⟨other, hother, heq⟩ := hdigest
    rw [tokenizeAll_of_unfinished feed hf, hother]
    refine ⟨fun hp => (by cases hp), fun fault hp => ?_⟩
    rw [← hp]
    exact congrArg (fun halted : Halted Splitter => some halted.fault) heq

theorem pull_resume (feed : Feed) (hs : s.Drained d ∨ s.splitter.reached limit = true) :
    Resumes d (s.tokenizeAll d feed) (s.pull d limit feed) := by
  induction hw : feed.weight using Nat.strongRecOn generalizing feed s with
  | _ weight ih =>
    cases hsettled : s.isSettled limit with
    | true =>
      rw [pull, if_pos hsettled]
      exact .of_ok rfl
    | false =>
      have hunsettled : s.isFinished = false ∧ s.splitter.reached limit = false := by
        simpa [isSettled] using hsettled
      have hdrained : s.Drained d := hs.resolve_right (by simp [hunsettled.2])
      have hgoes : s.isSettled none = false := by
        simp [isSettled, hunsettled.1, Splitter.reached]
      rw [tokenizeAll_of_unfinished feed hunsettled.1, hdrained]
      dsimp only
      rw [pull_of_unsettled feed hsettled, pull_of_unsettled feed hgoes]
      split_ifs with hx
      · exact conclude_resume hx hunsettled.1 feed
      split
      next text hread => exact ⟨fun hp => (by cases hp), fun fault hp => hp⟩
      next hread => exact conclude_resume (s := { s with exhausted := true }) rfl hunsettled.1 _
      next hread => exact conclude_resume (s := { s with exhausted := true }) rfl hunsettled.1 _
      next byte piece hread =>
        have hless := hw ▸ Feed.weight_read_lt hread (List.cons_ne_nil byte piece)
        have hpiece := digest_pull_resume (s := { s with unread := byte :: piece })
          (feed.read s.chunkSize).2 hunsettled.1 fun next hnext => ih _ hless _ hnext rfl
        rwa [tokenizeAll_of_unfinished _ (by exact hunsettled.1)] at hpiece

/-- A session that stopped at a limit comes to what it would have come to without one, and where it
fails it would have failed as well. -/
theorem tokenize_resume (d : Dialect) (limit : Option Nat) (feed : Feed) (s : Session) :
    Resumes d (s.tokenizeAll d feed) (s.tokenize d limit feed) := by
  unfold tokenize
  split_ifs with hsettled
  · exact .of_ok rfl
  · have hf : s.isFinished = false := by
      simp only [isSettled, Bool.or_eq_true, not_or, Bool.not_eq_true] at hsettled
      exact hsettled.1
    exact digest_pull_resume feed hf fun next hnext => pull_resume feed hnext

end Session

/-! ## Meeting the limit -/

namespace Splitter

variable {d : Dialect} {s t : Splitter} {c : UInt8} {usedUp : Bool}

inductive EndsOne (d : Dialect) (s : Splitter) : Except (Halted Splitter) Splitter → Prop
  | none {t : Splitter} (h : t.lines = s.lines) : EndsOne d s (.ok t)
  | one {t : Splitter} (state : SplitState) (h : t.lines = s.lines) :
    EndsOne d s (t.endLineTo d state)

theorem endLine_size (d : Dialect) (s : Splitter) :
    Yields (·.lines.size ≤ s.lines.size + 1) (·.left.lines.size ≤ s.lines.size + 1)
      (s.endLine d) := by
  have hended := endLine_ended d s
  cases he : s.endLine d with
  | ok t =>
    rw [he] at hended
    rcases hended.lines with hsame | ⟨line, -, hpushed⟩
    · exact Nat.le_succ_of_le (Nat.le_of_eq (congrArg Array.size hsame.lines))
    · exact Nat.le_of_eq ((congrArg Array.size hpushed.lines).trans (Array.size_push line))
  | error halted =>
    rw [he] at hended
    exact Nat.le_succ_of_le (Nat.le_of_eq (congrArg Array.size hended.lines))

theorem EndsOne.size {result : Except (Halted Splitter) Splitter} (h : EndsOne d s result) :
    Yields (·.lines.size ≤ s.lines.size + 1) (·.left.lines.size ≤ s.lines.size + 1) result := by
  cases h with
  | none h => exact Nat.le_succ_of_le (Nat.le_of_eq (congrArg Array.size h))
  | @one t state h =>
    have hline := endLine_size d t
    rw [h] at hline
    exact hline.bind fun u hu => hu

theorem EndsOne.readAtFieldStart (h : t.lines = s.lines) :
    EndsOne d s (t.readAtFieldStart d c) := by
  unfold Splitter.readAtFieldStart
  split_ifs <;> first | exact .none h | exact .one _ h

theorem EndsOne.readInField (h : t.lines = s.lines) : EndsOne d s (t.readInField d c) := by
  unfold Splitter.readInField
  split_ifs <;> first | exact .none h | exact .one _ h

theorem lines_pushAll (bytes : List UInt8) (s : Splitter) :
    (bytes.foldl push s).lines = s.lines := by
  induction bytes generalizing s with
  | nil => rfl
  | cons byte rest ih => exact ih (s.push byte)

theorem lines_releaseBlanks (d : Dialect) (s : Splitter) : (s.releaseBlanks d).lines = s.lines :=
  lines_pushAll _ { s with heldBlanks := #[] }

theorem EndsOne.readInBlanks : EndsOne d s (s.readInBlanks d c) := by
  have hblanks := lines_releaseBlanks d s
  unfold Splitter.readInBlanks
  dsimp only
  split_ifs
  · exact .none rfl
  · exact .none rfl
  · exact .none rfl
  · exact .none rfl
  · exact .readAtFieldStart rfl
  · exact .none rfl
  · exact .readInField hblanks
  · exact .readAtFieldStart hblanks

theorem EndsOne.readAtLineStart : EndsOne d s (s.readAtLineStart d c) := by
  unfold Splitter.readAtLineStart Splitter.readAtSkippedLine
  split_ifs <;> first | exact .none rfl | exact .one _ rfl | exact .readAtFieldStart rfl

theorem endsOne_accept (d : Dialect) (c : UInt8) (s : Splitter) : EndsOne d s (s.accept d c) := by
  unfold accept
  cases s.state with
  | lineStart => exact .readAtLineStart
  | fieldStart => exact .readAtFieldStart rfl
  | inField => exact .readInField rfl
  | inBlanks => exact .readInBlanks
  | escaped | escapedInQuotes | afterReturn | afterIgnoredReturn | finished => exact .none rfl
  | inQuotes | inCommentLine | inSkippedQuotes =>
    unfold readInQuotes readInCommentLine readInSkippedQuotes
    split_ifs <;> exact .none rfl
  | afterQuote | betweenFields | inTrailingComment =>
    unfold readAfterQuote readBetweenFields readInTrailingComment
    split_ifs <;> first | exact .none rfl | exact .one _ rfl | exact .readAtFieldStart rfl
  | skippedFieldStart | inSkippedField | afterSkippedQuote =>
    unfold readAtSkippedField readInSkippedField readAfterSkippedQuote
    split_ifs <;> first | exact .none rfl | exact .one _ rfl

theorem settleReturn_size (d : Dialect) (c : UInt8) (s : Splitter) :
    Yields (·.1.lines.size ≤ s.lines.size + 1) (·.left.lines.size ≤ s.lines.size + 1)
      (s.settleReturn d c) := by
  have hline (state : SplitState) := (EndsOne.one (d := d) (s := s) state rfl).size
  unfold settleReturn
  split
  · split_ifs
    · exact (hline _).bind fun u hu => hu
    · exact (hline _).bind fun u hu => hu
    · exact (hline _).bind fun u hu => hu
    · exact (hline _).bind fun u hu => hu
  · exact Nat.le_succ _
  · exact Nat.le_succ _

theorem scan_size {limit : Nat} (bytes : List UInt8) (h : s.lines.size ≤ limit) :
    Yields (·.1.lines.size ≤ limit) (·.left.lines.size ≤ limit)
      (s.scan d (some limit) bytes) := by
  induction bytes generalizing s with
  | nil => exact h
  | cons c rest ih =>
    rw [scan_cons]
    split_ifs with hreached
    · exact h
    have hroom : s.lines.size < limit := by simpa [reached] using hreached
    have hsettle := settleReturn_size d c s
    cases hs : s.settleReturn d c with
    | error halted =>
      rw [hs] at hsettle
      exact Nat.le_trans hsettle hroom
    | ok settled =>
      obtain ⟨t, usedUp⟩ := settled
      rw [hs] at hsettle
      have ht : t.lines.size ≤ limit := Nat.le_trans hsettle hroom
      dsimp only [ok_bind]
      split_ifs with _ hfull
      · exact ih ht
      · exact ht
      have hmore : t.lines.size < limit := by simpa [reached] using hfull
      have haccept := (endsOne_accept d c t).size
      cases ha : t.accept d c with
      | error halted =>
        rw [ha] at haccept
        exact Nat.le_trans haccept hmore
      | ok u =>
        rw [ha] at haccept
        exact ih (Nat.le_trans haccept hmore)

theorem finish_size (d : Dialect) (s : Splitter) :
    Yields (·.lines.size ≤ s.lines.size + 1) (·.left.lines.size ≤ s.lines.size + 1)
      (s.finish d) := by
  have hlast : Yields (·.lines.size ≤ s.lines.size + 1) (·.left.lines.size ≤ s.lines.size + 1)
      (s.endLastLine d) := by
    unfold endLastLine
    cases s.state with
    | lineStart | inBlanks | afterIgnoredReturn | inCommentLine | finished => exact Nat.le_succ _
    | inQuotes | escapedInQuotes | escaped => exact Nat.le_succ _
    | inField | fieldStart | afterQuote => exact endLine_size d s.closeField
    | _ => exact endLine_size d s
  exact hlast.bind fun u hu => hu

end Splitter

namespace Session

variable {d : Dialect} {limit : Option Nat} {s : Session}

theorem maintains_size (d : Dialect) (limit : Nat) :
    Maintains d (some limit) (·.lines.size ≤ limit) (·.left.lines.size ≤ limit) where
  scan bytes h := Splitter.scan_size bytes h
  finish {s} h hreached := by
    have hroom : s.lines.size < limit := by simpa [Splitter.reached] using hreached
    have hfinish := Splitter.finish_size d s
    cases hs : s.finish d with
    | ok t =>
      rw [hs] at hfinish
      exact Nat.le_trans hfinish hroom
    | error halted =>
      rw [hs] at hfinish
      exact Nat.le_trans hfinish hroom
  left h := h

theorem conclude_settled (feed : Feed)
    (h : (progress feed (s.conclude d limit)).fault = none) :
    (progress feed (s.conclude d limit)).session.isSettled limit = true := by
  rw [conclude_eq] at h ⊢
  cases hd : s.releaseMark.digest d limit with
  | error halted =>
    rw [hd] at h
    cases h
  | ok next =>
    rw [hd] at h
    rw [ok_bind, endInput] at h ⊢
    split_ifs at h ⊢ with hr
    · simp [progress, isSettled, hr]
    · cases hf : next.splitter.finish d with
      | error halted =>
        rw [hf] at h
        cases h
      | ok splitter => simp [progress, isSettled, isFinished, Splitter.finish_isFinished hf]

theorem pull_settled (feed : Feed) (h : (s.pull d limit feed).fault = none) :
    (s.pull d limit feed).session.isSettled limit = true := by
  induction hw : feed.weight using Nat.strongRecOn generalizing feed s with
  | _ weight ih =>
    cases hsettled : s.isSettled limit with
    | true =>
      rw [pull, if_pos hsettled]
      exact hsettled
    | false =>
      rw [pull_of_unsettled feed hsettled] at h ⊢
      split_ifs at h ⊢
      · exact conclude_settled feed h
      split at h
      next text hread => cases h
      next hread => exact conclude_settled _ h
      next hread => exact conclude_settled _ h
      next byte piece hread =>
        have hless := hw ▸ Feed.weight_read_lt hread (List.cons_ne_nil byte piece)
        split at h
        next next' hd => exact ih _ hless _ h rfl
        next halted hd => cases h

theorem tokenize_settled (feed : Feed) (h : (s.tokenize d limit feed).fault = none) :
    (s.tokenize d limit feed).session.isSettled limit = true := by
  unfold tokenize at h ⊢
  split_ifs at h ⊢ with hsettled
  · exact hsettled
  · split at h
    next next' hd => exact pull_settled feed h
    next halted hd => cases h

/-- A request for more lines adds no more than that, and exactly as many unless it fails, comes to
the end of the input or asks for more lines than can be counted. -/
theorem tokenizeLines_size (d : Dialect) (count : Nat) (feed : Feed) (s : Session) :
    let p := s.tokenizeLines d count feed
    p.session.splitter.lines.size ≤ s.splitter.lines.size + count ∧
      (s.splitter.lines.size + count < wordLimit → p.fault = none →
        p.session.isFinished = false →
          p.session.splitter.lines.size = s.splitter.lines.size + count) := by
  unfold tokenizeLines
  split_ifs with hnone
  · subst hnone
    exact ⟨Nat.le_refl _, fun _ _ _ => rfl⟩
  generalize hlimit : (s.splitter.lines.size + count) % wordLimit = limit
  have hle : limit ≤ s.splitter.lines.size + count := hlimit ▸ Nat.mod_le _ _
  have hsize : (s.tokenize d (some limit) feed).session.splitter.lines.size ≤
      s.splitter.lines.size + count := by
    by_cases hreached : limit ≤ s.splitter.lines.size
    · rw [tokenize, if_pos (by simp [isSettled, Splitter.reached, hreached])]
      exact Nat.le_add_right _ _
    · exact Nat.le_trans ((maintains_size d limit).tokenize feed
        (Nat.le_of_lt (Nat.lt_of_not_le hreached))).1 hle
  refine ⟨hsize, fun hcounted hf hopen => Nat.le_antisymm hsize ?_⟩
  rw [Nat.mod_eq_of_lt hcounted] at hlimit
  have hsettled := tokenize_settled feed hf
  simpa [isSettled, hopen, Splitter.reached, hlimit] using hsettled

end Session

end TypedTable.Csv
