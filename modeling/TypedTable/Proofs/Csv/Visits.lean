import TypedTable.Proofs.Csv.Limits

/-!
# Every byte is used up

A byte is read in one state, which uses it up or passes it on to another one. A state passes a byte
only to one of lower rank, whatever bytes of the dialect coincide, so no byte is read in more than
three states and a scan ends after three times as many visits as it has bytes.
-/

set_option autoImplicit false

namespace TypedTable.Csv

def SplitState.rank : SplitState → Nat
  | .afterReturn | .afterIgnoredReturn => 2
  | .lineStart | .betweenFields | .inBlanks => 1
  | _ => 0

namespace Splitter

variable {d : Dialect} {limit : Option Nat} {c : UInt8} {s t u : Splitter} {usedUp : Bool}
  {n : Nat} {bytes rest : List UInt8}

def consumed (result : Except (Halted Splitter) Splitter) :
    Except (Halted Splitter) (Splitter × Bool) :=
  (fun t => (t, true)) <$> result

/-! ## One visit -/

def visitLineStart (d : Dialect) (c : UInt8) (s : Splitter) :
    Except (Halted Splitter) (Splitter × Bool) :=
  if d.skipsLine s.fileLines then consumed (s.readAtSkippedLine d c)
  else if d.isTerminator c then
    consumed (if d.skipEmptyLines then .ok s.countLine else s.endLineTo d .lineStart)
  else if d.isReturn c then
    .ok (if d.skipEmptyLines then s.countLine.enter .afterIgnoredReturn
      else s.enter .afterReturn, true)
  else if d.isComment c then .ok (s.enter .inCommentLine, true)
  else if Dialect.isSpaceOrTab c then
    if d.blankDelimited then
      .ok (s.enter (if d.skipEmptyLines then .inBlanks else .betweenFields), true)
    else if c ≠ d.delimiter ∧ d.skipEmptyLines then
      .ok ({ s with heldBlanks := #[c] }.enter .inBlanks, true)
    else
      .ok (s.enter .fieldStart, false)
  else
    .ok (s.enter .fieldStart, false)

def visitBetweenFields (d : Dialect) (c : UInt8) (s : Splitter) :
    Except (Halted Splitter) (Splitter × Bool) :=
  if d.isTerminator c then consumed (s.endLineTo d .lineStart)
  else if d.isReturn c then .ok (s.enter .afterReturn, true)
  else if d.isComment c then .ok (s.enter .inTrailingComment, true)
  else if Dialect.isSpaceOrTab c then .ok (s, true)
  else .ok (s.enter .fieldStart, false)

def visitInBlanks (d : Dialect) (c : UInt8) (s : Splitter) :
    Except (Halted Splitter) (Splitter × Bool) :=
  if d.isTerminator c then .ok ({ s.countLine with heldBlanks := #[] }.enter .lineStart, true)
  else if d.isReturn c then
    .ok ({ s.countLine with heldBlanks := #[] }.enter .afterIgnoredReturn, true)
  else if d.blankDelimited then
    if d.isComment c then .ok (s.enter .inTrailingComment, true)
    else if Dialect.isSpaceOrTab c then .ok (s, true)
    else .ok (s.enter .fieldStart, false)
  else if Dialect.isSpaceOrTab c ∧ c ≠ d.delimiter then
    .ok ({ s with heldBlanks := s.heldBlanks.push c }, true)
  else .ok (s.releaseBlanks d, false)

/-- Reads a byte in the current state alone, and says whether that uses it up. If not, it is read
again in the state that was entered. -/
def visit (d : Dialect) (c : UInt8) (s : Splitter) : Except (Halted Splitter) (Splitter × Bool) :=
  match s.state with
  | .lineStart => s.visitLineStart d c
  | .betweenFields => s.visitBetweenFields d c
  | .inBlanks => s.visitInBlanks d c
  | .afterReturn | .afterIgnoredReturn => s.settleReturn d c
  | _ => consumed (s.accept d c)

theorem consumed_eq_ok_iff {result : Except (Halted Splitter) Splitter} :
    consumed result = .ok (t, usedUp) ↔ result = .ok t ∧ usedUp = true := by
  cases result with
  | error halted => simp [consumed]
  | ok u => simp [consumed, eq_comm]

theorem rank_le_one_iff :
    s.state.rank ≤ 1 ↔ s.state ≠ .afterReturn ∧ s.state ≠ .afterIgnoredReturn := by
  cases s.state <;> simp [SplitState.rank]

theorem visit_of_rank_zero (h : s.state.rank = 0) : s.visit d c = consumed (s.accept d c) := by
  unfold visit
  cases hs : s.state <;> simp_all [SplitState.rank]

theorem visit_of_return (h : ¬s.state.rank ≤ 1) : s.visit d c = s.settleReturn d c := by
  unfold visit
  cases hs : s.state <;> rw [hs] at h <;> first | rfl | exact absurd (by decide) h

theorem releaseBlanks_state (d : Dialect) (s : Splitter) :
    (s.releaseBlanks d).state = .inField ∨ (s.releaseBlanks d).state = .fieldStart := by
  unfold releaseBlanks
  dsimp only [enter]
  split_ifs <;> simp

theorem rank_releaseBlanks (d : Dialect) (s : Splitter) : (s.releaseBlanks d).state.rank = 0 := by
  rcases releaseBlanks_state d s with h | h <;> rw [h] <;> rfl

theorem visitLineStart_passed (h : s.visitLineStart d c = .ok (t, false)) :
    t = s.enter .fieldStart := by
  unfold visitLineStart at h
  split_ifs at h
  all_goals first
    | exact absurd (consumed_eq_ok_iff.1 h).2 Bool.false_ne_true
    | cases h
  · rfl
  · rfl

theorem visitBetweenFields_passed (h : s.visitBetweenFields d c = .ok (t, false)) :
    t = s.enter .fieldStart := by
  unfold visitBetweenFields at h
  split_ifs at h
  all_goals first
    | exact absurd (consumed_eq_ok_iff.1 h).2 Bool.false_ne_true
    | cases h
  rfl

theorem visitInBlanks_passed (h : s.visitInBlanks d c = .ok (t, false)) :
    t = s.enter .fieldStart ∨ t = s.releaseBlanks d := by
  unfold visitInBlanks at h
  split_ifs at h
  all_goals cases h
  · exact .inl rfl
  · exact .inr rfl

/-- What a state passes on that no carriage return leads to, the next one uses up. No line ends
between the two. -/
theorem visit_passed (h : s.visit d c = .ok (t, false)) (hrank : s.state.rank ≤ 1) :
    s.state.rank = 1 ∧ t.state.rank = 0 ∧ t.lines = s.lines := by
  unfold visit at h
  cases hs : s.state with
  | lineStart =>
    rw [hs] at h
    obtain rfl := visitLineStart_passed h
    exact ⟨rfl, rfl, rfl⟩
  | betweenFields =>
    rw [hs] at h
    obtain rfl := visitBetweenFields_passed h
    exact ⟨rfl, rfl, rfl⟩
  | inBlanks =>
    rw [hs] at h
    obtain rfl | rfl := visitInBlanks_passed h
    · exact ⟨rfl, rfl, rfl⟩
    · exact ⟨rfl, rank_releaseBlanks d s, lines_releaseBlanks d s⟩
  | afterReturn | afterIgnoredReturn =>
    rw [hs] at hrank
    exact absurd hrank (by decide)
  | _ =>
    rw [hs] at h
    exact absurd (consumed_eq_ok_iff.1 h).2 Bool.false_ne_true

theorem rank_lt_of_visit (h : s.visit d c = .ok (t, false)) : t.state.rank < s.state.rank := by
  by_cases hrank : s.state.rank ≤ 1
  · obtain ⟨hone, hzero, -⟩ := visit_passed h hrank
    omega
  · rw [visit_of_return hrank] at h
    have := rank_le_one_iff.2 (settleReturn_state h)
    omega

/-! ## The visits of a byte -/

inductive Passes (d : Dialect) (c : UInt8) : Nat → Splitter → Splitter → Prop
  | none (s : Splitter) : Passes d c 0 s s
  | pass {n : Nat} {s t u : Splitter} (h : s.visit d c = .ok (t, false))
    (later : Passes d c n t u) : Passes d c (n + 1) s u

theorem Passes.add_rank_le (h : Passes d c n s t) : n + t.state.rank ≤ s.state.rank := by
  induction h with
  | none s => exact Nat.le_of_eq (Nat.zero_add _)
  | pass h later ih =>
    have := rank_lt_of_visit h
    omega

theorem SplitState.rank_le (state : SplitState) : state.rank ≤ 2 := by
  cases state <;> decide

theorem Passes.le_two (h : Passes d c n s t) : n ≤ 2 := by
  have hchain := h.add_rank_le
  have hrank := SplitState.rank_le s.state
  omega

/-! ## The visits of a scan -/

def carryOn (d : Dialect) (c : UInt8) (visited : Splitter × Bool) :
    Except (Halted Splitter) Splitter :=
  if visited.2 then .ok visited.1 else visited.1.accept d c

theorem consumed_bind_carryOn (d : Dialect) (c : UInt8)
    (result : Except (Halted Splitter) Splitter) :
    consumed result >>= carryOn d c = result := by
  cases result <;> rfl

theorem readAtLineStart_visit (d : Dialect) (c : UInt8) (s : Splitter) :
    s.readAtLineStart d c = s.visitLineStart d c >>= carryOn d c := by
  unfold readAtLineStart visitLineStart
  split_ifs <;> first | exact (consumed_bind_carryOn d c _).symm | rfl

theorem readBetweenFields_visit (d : Dialect) (c : UInt8) (s : Splitter) :
    s.readBetweenFields d c = s.visitBetweenFields d c >>= carryOn d c := by
  unfold readBetweenFields visitBetweenFields
  split_ifs <;> first | exact (consumed_bind_carryOn d c _).symm | rfl

theorem accept_releaseBlanks (d : Dialect) (c : UInt8) (s : Splitter) :
    (s.releaseBlanks d).accept d c =
      if (s.releaseBlanks d).state = .inField then (s.releaseBlanks d).readInField d c
      else (s.releaseBlanks d).readAtFieldStart d c := by
  unfold accept
  rcases releaseBlanks_state d s with h | h <;> simp [h]

theorem readInBlanks_visit (d : Dialect) (c : UInt8) (s : Splitter) :
    s.readInBlanks d c = s.visitInBlanks d c >>= carryOn d c := by
  unfold readInBlanks visitInBlanks
  dsimp only
  rw [← accept_releaseBlanks]
  split_ifs <;> rfl

theorem accept_visit (hrank : s.state.rank ≤ 1) :
    s.accept d c = s.visit d c >>= carryOn d c := by
  cases hs : s.state with
  | lineStart => simpa only [accept, visit, hs] using readAtLineStart_visit d c s
  | betweenFields => simpa only [accept, visit, hs] using readBetweenFields_visit d c s
  | inBlanks => simpa only [accept, visit, hs] using readInBlanks_visit d c s
  | afterReturn | afterIgnoredReturn =>
    rw [hs] at hrank
    exact absurd hrank (by decide)
  | _ =>
    rw [visit_of_rank_zero (by rw [hs]; rfl)]
    exact (consumed_bind_carryOn d c _).symm

/-- A scan visit by visit: how many there are, and what they come to. -/
inductive Visits (d : Dialect) (limit : Option Nat) :
    Nat → List UInt8 → Splitter → Except (Halted Splitter) (Splitter × List UInt8) → Prop
  | done (s : Splitter) : Visits d limit 0 [] s (.ok (s, []))
  | stopped {c : UInt8} {rest : List UInt8} {s : Splitter} (hreached : s.reached limit = true) :
    Visits d limit 0 (c :: rest) s (.ok (s, c :: rest))
  | failed {c : UInt8} {rest : List UInt8} {s : Splitter} {halted : Halted Splitter}
    (hopen : s.reached limit = false) (h : s.visit d c = .error halted) :
    Visits d limit 1 (c :: rest) s (.error halted)
  | used {n : Nat} {c : UInt8} {rest : List UInt8} {s t : Splitter}
    {result : Except (Halted Splitter) (Splitter × List UInt8)}
    (hopen : s.reached limit = false) (h : s.visit d c = .ok (t, true))
    (later : Visits d limit n rest t result) : Visits d limit (n + 1) (c :: rest) s result
  | passed {n : Nat} {c : UInt8} {rest : List UInt8} {s t : Splitter}
    {result : Except (Halted Splitter) (Splitter × List UInt8)}
    (hopen : s.reached limit = false) (h : s.visit d c = .ok (t, false))
    (later : Visits d limit n (c :: rest) t result) : Visits d limit (n + 1) (c :: rest) s result

theorem reached_congr (limit : Option Nat) (h : t.lines = s.lines) :
    t.reached limit = s.reached limit := by
  cases limit <;> simp [reached, h]

section Rest

variable
  (hrest : ∀ t : Splitter, ∃ n ≤ 3 * rest.length, Visits d limit n rest t (t.scan d limit rest))

include hrest

theorem visits_consumed (result : Except (Halted Splitter) Splitter)
    (hopen : s.reached limit = false) (hv : s.visit d c = consumed result) :
    ∃ n ≤ 3 * rest.length + 1,
      Visits d limit n (c :: rest) s (result >>= fun t => t.scan d limit rest) := by
  cases result with
  | error halted => exact ⟨1, Nat.le_add_left 1 _, .failed hopen hv⟩
  | ok t =>
    obtain ⟨n, hn, hvisits⟩ := hrest t
    exact ⟨n + 1, Nat.succ_le_succ hn, .used hopen hv hvisits⟩

theorem visits_accept (hopen : s.reached limit = false) (hrank : s.state.rank ≤ 1) :
    ∃ n ≤ 3 * rest.length + 2,
      Visits d limit n (c :: rest) s (s.accept d c >>= fun t => t.scan d limit rest) := by
  rw [accept_visit hrank]
  match hv : s.visit d c with
  | .error halted => exact ⟨1, Nat.le_add_left 1 _, .failed hopen hv⟩
  | .ok (t, true) =>
    obtain ⟨n, hn, hvisits⟩ := visits_consumed hrest (.ok t) hopen hv
    exact ⟨n, Nat.le_succ_of_le hn, hvisits⟩
  | .ok (t, false) =>
    obtain ⟨-, hzero, hlines⟩ := visit_passed hv hrank
    have htopen : t.reached limit = false := (reached_congr limit hlines).trans hopen
    obtain ⟨n, hn, hvisits⟩ := visits_consumed hrest _ htopen (visit_of_rank_zero hzero)
    exact ⟨n + 1, Nat.succ_le_succ hn, .passed hopen hv hvisits⟩

end Rest

theorem visits_scan (d : Dialect) (limit : Option Nat) (bytes : List UInt8) (s : Splitter) :
    ∃ n ≤ 3 * bytes.length, Visits d limit n bytes s (s.scan d limit bytes) := by
  induction bytes generalizing s with
  | nil => exact ⟨0, Nat.le_refl _, .done s⟩
  | cons c rest ih =>
    rw [scan_cons]
    split_ifs with hreached
    · exact ⟨0, Nat.zero_le _, .stopped hreached⟩
    rw [Bool.not_eq_true] at hreached
    by_cases hrank : s.state.rank ≤ 1
    · obtain ⟨hreturn, hignored⟩ := rank_le_one_iff.1 hrank
      obtain ⟨n, hn, hvisits⟩ := visits_accept ih hreached hrank
      refine ⟨n, Nat.le_succ_of_le hn, ?_⟩
      simpa [settleReturn_of_not_return d c s hreturn hignored, ok_bind, hreached] using hvisits
    rw [← visit_of_return hrank]
    match hv : s.visit d c with
    | .error halted => exact ⟨1, Nat.le_add_left 1 _, .failed hreached hv⟩
    | .ok (t, true) =>
      obtain ⟨n, hn, hvisits⟩ := visits_consumed ih (.ok t) hreached hv
      exact ⟨n, hn.trans (Nat.add_le_add_left (by decide) _), hvisits⟩
    | .ok (t, false) =>
      simp only [ok_bind, Bool.false_eq_true, if_false]
      split_ifs with ht
      · exact ⟨1, Nat.le_add_left 1 _, .passed hreached hv (.stopped ht)⟩
      rw [Bool.not_eq_true] at ht
      have hless := rank_lt_of_visit hv
      have htwo := SplitState.rank_le s.state
      obtain ⟨n, hn, hvisits⟩ := visits_accept ih ht (by omega)
      exact ⟨n + 1, Nat.succ_le_succ hn, .passed hreached hv hvisits⟩

end Splitter

end TypedTable.Csv
