import TypedTable.Proofs.Csv.Scanning

/-!
# Two splitters in step

Two splitters that agree on their states, held blanks and counts of lines decide alike on every
byte. So a relation between them that the moves keep is kept by whatever is read. It may ask for
more where less of a line can be under construction: a state says how much that is at most. A
property of one splitter is such a relation of the splitter to itself.
-/

set_option autoImplicit false

namespace TypedTable.Csv

inductive OpenPart where
  | nothing
  /-- Finished fields. -/
  | fields
  /-- Finished fields, and bytes of another one. -/
  | bytes
deriving DecidableEq, Repr

def OpenPart.rank : OpenPart → Nat
  | .nothing => 0
  | .fields => 1
  | .bytes => 2

def SplitState.openPart : SplitState → OpenPart
  | .inField | .escaped | .inQuotes | .escapedInQuotes | .afterQuote => .bytes
  | .fieldStart | .afterReturn | .betweenFields | .inTrailingComment => .fields
  | .lineStart | .afterIgnoredReturn | .inCommentLine | .inBlanks | .skippedFieldStart
  | .inSkippedField | .inSkippedQuotes | .afterSkippedQuote | .finished => .nothing

def Halted.openPart (halted : Halted Splitter) : OpenPart :=
  match halted.fault with
  | .malformed (.tooManyFields ..) => .nothing
  | _ => halted.left.state.openPart

theorem OpenPart.rank_nothing_le (p : OpenPart) : OpenPart.nothing.rank ≤ p.rank :=
  Nat.zero_le _

theorem OpenPart.rank_le_bytes (p : OpenPart) : p.rank ≤ OpenPart.bytes.rank := by
  cases p <;> decide

namespace Splitter

variable {R : OpenPart → Splitter → Splitter → Prop} {excuse : ReadFault → Prop}

/-- Both results are there and are related, or both fail with one fault and leave related splitters.
Nothing is said if the second fails with an excuse. -/
inductive Agree (R : OpenPart → Splitter → Splitter → Prop) (excuse : ReadFault → Prop) {α : Type}
    (P : α → α → Prop) : Except (Halted Splitter) α → Except (Halted Splitter) α → Prop
  | ok {a b : α} (h : P a b) : Agree R excuse P (.ok a) (.ok b)
  | error {first second : Halted Splitter} (hf : first.fault = second.fault)
    (h : R first.openPart first.left second.left) :
    Agree R excuse P (.error first) (.error second)
  | excused {result : Except (Halted Splitter) α} {halted : Halted Splitter}
    (h : excuse halted.fault) : Agree R excuse P result (.error halted)

namespace Agree

variable {α β : Type} {P : α → α → Prop} {Q : β → β → Prop}

theorem bind {x y : Except (Halted Splitter) α} {f g : α → Except (Halted Splitter) β}
    (h : Agree R excuse P x y) (hf : ∀ a b, P a b → Agree R excuse Q (f a) (g b)) :
    Agree R excuse Q (x >>= f) (y >>= g) := by
  cases h with
  | ok h => exact hf _ _ h
  | error hf h => exact .error hf h
  | excused h => exact .excused h

theorem mono {P' : α → α → Prop} {x y : Except (Halted Splitter) α} (h : Agree R excuse P x y)
    (hp : ∀ a b, P a b → P' a b) : Agree R excuse P' x y := by
  cases h with
  | ok h => exact .ok (hp _ _ h)
  | error hf h => exact .error hf h
  | excused h => exact .excused h

end Agree

structure Lockstep (d : Dialect) (excuse : ReadFault → Prop)
    (R : OpenPart → Splitter → Splitter → Prop) : Prop where
  state {p : OpenPart} {s t : Splitter} : R p s t → s.state = t.state
  heldBlanks {p : OpenPart} {s t : Splitter} : R p s t → s.heldBlanks = t.heldBlanks
  fileLines {p : OpenPart} {s t : Splitter} : R p s t → s.fileLines = t.fileLines
  loosen {p q : OpenPart} {s t : Splitter} : R p s t → p.rank ≤ q.rank → R q s t
  enter {p : OpenPart} {s t : Splitter} (state : SplitState) :
    R p s t → R p (s.enter state) (t.enter state)
  push {s t : Splitter} (byte : UInt8) : R .bytes s t → R .bytes (s.push byte) (t.push byte)
  closeField {s t : Splitter} : R .bytes s t → R .fields s.closeField t.closeField
  countLine {p : OpenPart} {s t : Splitter} : R p s t → R p s.countLine t.countLine
  discardLine {s t : Splitter} : R .fields s t → R .nothing s.discardLine t.discardLine
  hold {p : OpenPart} {s t : Splitter} (blanks : Array UInt8) :
    R p s t → R p { s with heldBlanks := blanks } { t with heldBlanks := blanks }
  endLine {p : OpenPart} {s t : Splitter} : R p s t → p ≠ .bytes →
    p.rank ≤ s.state.openPart.rank → Agree R excuse (R .nothing) (s.endLine d) (t.endLine d)

def Steady (R : OpenPart → Splitter → Splitter → Prop) (s t : Splitter) : Prop :=
  R s.state.openPart s t

namespace Lockstep

variable {d : Dialect} {s t : Splitter} {p : OpenPart}

theorem afterDelimiter_rank (d : Dialect) :
    OpenPart.fields.rank ≤ (afterDelimiter d).openPart.rank := by
  unfold afterDelimiter
  split_ifs <;> decide

section Bytes

variable (H : Lockstep d excuse R) (c : UInt8)

include H

theorem steady (h : R p s t) (hp : p.rank ≤ s.state.openPart.rank) : Steady R s t :=
  H.loosen h hp

theorem enter_ok (state : SplitState) (h : R p s t) (hp : p.rank ≤ state.openPart.rank) :
    Agree R excuse (Steady R) (.ok (s.enter state)) (.ok (t.enter state)) :=
  .ok (H.steady (H.enter state h) hp)

theorem closed (h : R p s t) : R .fields s.closeField t.closeField :=
  H.closeField (H.loosen h p.rank_le_bytes)

theorem pushed (h : R p s t) : R .bytes (s.push c) (t.push c) :=
  H.push c (H.loosen h p.rank_le_bytes)

theorem endLineTo_entered (state : SplitState) (h : R p s t) (hb : p ≠ .bytes)
    (hp : p.rank ≤ s.state.openPart.rank) :
    Agree R excuse (fun a b => R .nothing a b ∧ a.state = state) (s.endLineTo d state)
      (t.endLineTo d state) :=
  (H.endLine h hb hp).bind fun _ _ h => .ok ⟨H.enter state h, rfl⟩

theorem endLineTo (state : SplitState) (h : R p s t) (hb : p ≠ .bytes)
    (hp : p.rank ≤ s.state.openPart.rank) :
    Agree R excuse (Steady R) (s.endLineTo d state) (t.endLineTo d state) :=
  (H.endLineTo_entered state h hb hp).mono fun _ _ h => H.steady h.1 (OpenPart.rank_nothing_le _)

theorem readAtFieldStart (h : R .fields s t) (hs : s.state = .fieldStart) :
    Agree R excuse (Steady R) (s.readAtFieldStart d c) (t.readAtFieldStart d c) := by
  have hrank : OpenPart.fields.rank ≤ s.state.openPart.rank := by
    rw [hs]
    decide
  unfold Splitter.readAtFieldStart
  split_ifs
  · exact H.endLineTo _ (H.closed h) (by decide) hrank
  · exact H.enter_ok _ (H.closed h) (by decide)
  · exact H.enter_ok _ h (by decide)
  · exact H.enter_ok _ h (by decide)
  · exact .ok (H.steady h hrank)
  · exact H.enter_ok _ h (by decide)
  · exact .ok (H.steady (H.closed h) hrank)
  · exact H.enter_ok _ (H.closed h) (by decide)
  · exact H.enter_ok _ (H.pushed c h) (by decide)

theorem fieldStart (h : R p s t) (hb : p ≠ .bytes) :
    Agree R excuse (Steady R) ((s.enter .fieldStart).readAtFieldStart d c)
      ((t.enter .fieldStart).readAtFieldStart d c) :=
  H.readAtFieldStart c (H.enter _ (H.loosen h (by cases p <;> simp_all [OpenPart.rank]))) rfl

theorem readInField (h : R p s t) (hs : s.state = .inField) :
    Agree R excuse (Steady R) (s.readInField d c) (t.readInField d c) := by
  have hrank (q : OpenPart) : q.rank ≤ s.state.openPart.rank := by
    rw [hs]
    exact q.rank_le_bytes
  unfold Splitter.readInField
  split_ifs
  · exact H.endLineTo _ (H.closed h) (by decide) (hrank _)
  · exact H.enter_ok _ (H.closed h) (by decide)
  · exact H.enter_ok _ h (OpenPart.rank_le_bytes p)
  · exact H.enter_ok _ (H.closed h) (afterDelimiter_rank d)
  · exact H.enter_ok _ (H.closed h) (by decide)
  · exact .ok (H.steady (H.pushed c h) (hrank _))

theorem readInQuotes (h : R p s t) (hs : s.state = .inQuotes) :
    Steady R (s.readInQuotes d c) (t.readInQuotes d c) := by
  unfold Splitter.readInQuotes
  split_ifs
  · exact H.steady (H.enter _ h) p.rank_le_bytes
  · exact H.steady (H.enter _ h) p.rank_le_bytes
  · exact H.steady (H.enter _ h) p.rank_le_bytes
  · refine H.steady (H.pushed c h) ?_
    rw [show (s.push c).state = .inQuotes from hs]
    decide

theorem readAfterQuote (h : R p s t) (hs : s.state = .afterQuote) :
    Agree R excuse (Steady R) (s.readAfterQuote d c) (t.readAfterQuote d c) := by
  unfold Splitter.readAfterQuote
  split_ifs
  · exact H.enter_ok _ (H.pushed c h) (by decide)
  · exact H.enter_ok _ (H.closed h) (afterDelimiter_rank d)
  · refine H.endLineTo _ (H.closed h) (by decide) ?_
    rw [show s.closeField.state = .afterQuote from hs]
    decide
  · exact H.enter_ok _ (H.closed h) (by decide)
  · exact H.enter_ok _ (H.pushed c h) (by decide)

theorem readBetweenFields (h : R .fields s t) (hs : s.state = .betweenFields) :
    Agree R excuse (Steady R) (s.readBetweenFields d c) (t.readBetweenFields d c) := by
  have hrank : OpenPart.fields.rank ≤ s.state.openPart.rank := by
    rw [hs]
    decide
  unfold Splitter.readBetweenFields
  split_ifs
  · exact H.endLineTo _ h (by decide) hrank
  · exact H.enter_ok _ h (by decide)
  · exact H.enter_ok _ h (by decide)
  · exact .ok (H.steady h hrank)
  · exact H.fieldStart c h (by decide)

theorem readInTrailingComment (h : R .fields s t) (hs : s.state = .inTrailingComment) :
    Agree R excuse (Steady R) (s.readInTrailingComment d c) (t.readInTrailingComment d c) := by
  have hrank : OpenPart.fields.rank ≤ s.state.openPart.rank := by
    rw [hs]
    decide
  unfold Splitter.readInTrailingComment
  split_ifs
  · exact H.endLineTo _ h (by decide) hrank
  · exact H.enter_ok _ h (by decide)
  · exact .ok (H.steady h hrank)

theorem readInCommentLine (h : R .nothing s t) :
    Steady R (s.readInCommentLine d c) (t.readInCommentLine d c) := by
  unfold Splitter.readInCommentLine
  split_ifs
  · exact H.steady (H.enter _ (H.countLine h)) (OpenPart.rank_nothing_le _)
  · exact H.steady (H.enter _ (H.countLine h)) (OpenPart.rank_nothing_le _)
  · exact H.steady h (OpenPart.rank_nothing_le _)

theorem pushAll (bytes : List UInt8) (h : R .bytes s t) :
    R .bytes (bytes.foldl Splitter.push s) (bytes.foldl Splitter.push t) := by
  induction bytes generalizing s t with
  | nil => exact h
  | cons byte rest ih => exact ih (H.push byte h)

/-- The held blanks begin a field, or none of them counts. -/
theorem releaseBlanks (h : R .nothing s t) :
    ((s.releaseBlanks d).state = .inField ∧ R .bytes (s.releaseBlanks d) (t.releaseBlanks d)) ∨
      ((s.releaseBlanks d).state = .fieldStart ∧
        R .nothing (s.releaseBlanks d) (t.releaseBlanks d)) := by
  unfold Splitter.releaseBlanks
  rw [← H.heldBlanks h]
  dsimp only
  generalize (if d.skipInitialSpace then s.heldBlanks.toList.dropWhile (· == 32)
    else s.heldBlanks.toList) = kept
  cases kept with
  | nil => exact .inr ⟨rfl, H.enter _ (H.hold #[] h)⟩
  | cons byte rest => exact .inl ⟨rfl, H.enter _ (H.pushAll rest (H.pushed byte (H.hold #[] h)))⟩

theorem readInBlanks (h : R .nothing s t) :
    Agree R excuse (Steady R) (s.readInBlanks d c) (t.readInBlanks d c) := by
  have hrank := OpenPart.rank_nothing_le
  have hreleased : (s.releaseBlanks d).state = (t.releaseBlanks d).state := by
    rcases H.releaseBlanks h with ⟨-, h⟩ | ⟨-, h⟩ <;> exact H.state h
  unfold Splitter.readInBlanks
  dsimp only
  rw [← hreleased, ← H.heldBlanks h]
  split_ifs with _ _ _ _ _ _ hfield
  · exact H.enter_ok _ (H.hold #[] (H.countLine h)) (hrank _)
  · exact H.enter_ok _ (H.hold #[] (H.countLine h)) (hrank _)
  · exact H.enter_ok _ h (hrank _)
  · exact .ok (H.steady h (hrank _))
  · exact H.fieldStart c h (by decide)
  · exact .ok (H.steady (H.hold _ h) (hrank _))
  · rcases H.releaseBlanks h with ⟨-, h⟩ | ⟨-, h⟩ <;> exact H.readInField c h hfield
  · rcases H.releaseBlanks h with ⟨hs, -⟩ | ⟨hs, h⟩
    · exact absurd hs hfield
    · exact H.readAtFieldStart c (H.loosen h (hrank _)) hs

theorem readAtSkippedLine (h : R .nothing s t) :
    Agree R excuse (Steady R) (s.readAtSkippedLine d c) (t.readAtSkippedLine d c) := by
  have hrank := OpenPart.rank_nothing_le
  unfold Splitter.readAtSkippedLine
  split_ifs
  · exact H.enter_ok _ h (hrank _)
  · exact H.endLineTo _ (H.enter _ h) (by decide) (hrank _)
  · exact H.enter_ok _ h (hrank _)

theorem readAtLineStart (h : R .nothing s t) :
    Agree R excuse (Steady R) (s.readAtLineStart d c) (t.readAtLineStart d c) := by
  have hrank := OpenPart.rank_nothing_le
  have hskips : d.skipsLine t.fileLines = d.skipsLine s.fileLines := by rw [H.fileLines h]
  unfold Splitter.readAtLineStart
  rw [hskips]
  split_ifs
  · exact H.readAtSkippedLine c h
  · exact .ok (H.steady (H.countLine h) (hrank _))
  · exact H.endLineTo _ h (by decide) (hrank _)
  · exact H.enter_ok _ (H.countLine h) (hrank _)
  · exact H.enter_ok _ h (hrank _)
  · exact H.enter_ok _ h (hrank _)
  · exact H.enter_ok _ h (hrank _)
  · exact H.enter_ok _ h (hrank _)
  · exact H.enter_ok _ (H.hold _ h) (hrank _)
  · exact H.fieldStart c h (by decide)
  · exact H.fieldStart c h (by decide)

theorem returnFromSkipped (h : R .nothing s t) :
    Agree R excuse (Steady R) (.ok s.returnFromSkipped) (.ok t.returnFromSkipped) :=
  H.enter_ok _ (H.discardLine (H.loosen (H.countLine h) (by decide))) (by decide)

theorem readAtSkippedField (h : R .nothing s t) :
    Agree R excuse (Steady R) (s.readAtSkippedField d c) (t.readAtSkippedField d c) := by
  have hrank := OpenPart.rank_nothing_le
  unfold Splitter.readAtSkippedField
  split_ifs
  · exact H.endLineTo _ h (by decide) (hrank _)
  · exact H.returnFromSkipped h
  · exact H.enter_ok _ h (hrank _)
  · exact .ok (H.steady h (hrank _))
  · exact H.enter_ok _ h (hrank _)

theorem readInSkippedField (h : R .nothing s t) :
    Agree R excuse (Steady R) (s.readInSkippedField d c) (t.readInSkippedField d c) := by
  have hrank := OpenPart.rank_nothing_le
  unfold Splitter.readInSkippedField
  split_ifs
  · exact H.endLineTo _ h (by decide) (hrank _)
  · exact H.returnFromSkipped h
  · exact H.enter_ok _ h (hrank _)
  · exact .ok (H.steady h (hrank _))

theorem readInSkippedQuotes (h : R .nothing s t) :
    Steady R (s.readInSkippedQuotes d c) (t.readInSkippedQuotes d c) := by
  unfold Splitter.readInSkippedQuotes
  split_ifs
  · exact H.steady (H.enter _ h) (OpenPart.rank_nothing_le _)
  · exact H.steady (H.enter _ h) (OpenPart.rank_nothing_le _)
  · exact H.steady h (OpenPart.rank_nothing_le _)

theorem readAfterSkippedQuote (h : R .nothing s t) :
    Agree R excuse (Steady R) (s.readAfterSkippedQuote d c) (t.readAfterSkippedQuote d c) := by
  have hrank := OpenPart.rank_nothing_le
  unfold Splitter.readAfterSkippedQuote
  split_ifs
  · exact H.enter_ok _ h (hrank _)
  · exact H.endLineTo _ h (by decide) (hrank _)
  · exact H.returnFromSkipped h
  · exact H.enter_ok _ h (hrank _)
  · exact H.enter_ok _ h (hrank _)

theorem accept (h : Steady R s t) :
    Agree R excuse (Steady R) (s.accept d c) (t.accept d c) := by
  have hpart {state : SplitState} (hs : s.state = state) : R state.openPart s t := hs ▸ h
  unfold Splitter.accept
  rw [← H.state h]
  cases hs : s.state with
  | lineStart => exact H.readAtLineStart c (hpart hs)
  | fieldStart => exact H.readAtFieldStart c (hpart hs) hs
  | inField => exact H.readInField c (hpart hs) hs
  | escaped => exact H.enter_ok _ (H.pushed c (hpart hs)) (by decide)
  | inQuotes => exact .ok (H.readInQuotes c (hpart hs) hs)
  | escapedInQuotes => exact H.enter_ok _ (H.pushed c (hpart hs)) (by decide)
  | afterQuote => exact H.readAfterQuote c (hpart hs) hs
  | betweenFields => exact H.readBetweenFields c (hpart hs) hs
  | inTrailingComment => exact H.readInTrailingComment c (hpart hs) hs
  | inCommentLine => exact .ok (H.readInCommentLine c (hpart hs))
  | inBlanks => exact H.readInBlanks c (hpart hs)
  | skippedFieldStart => exact H.readAtSkippedField c (hpart hs)
  | inSkippedField => exact H.readInSkippedField c (hpart hs)
  | inSkippedQuotes => exact .ok (H.readInSkippedQuotes c (hpart hs))
  | afterSkippedQuote => exact H.readAfterSkippedQuote c (hpart hs)
  | afterReturn | afterIgnoredReturn | finished => exact .ok h

theorem settleReturn (h : Steady R s t) :
    Agree R excuse (fun a b => Steady R a.1 b.1 ∧ a.2 = b.2) (s.settleReturn d c)
      (t.settleReturn d c) := by
  have hpart {state : SplitState} (hs : s.state = state) : R state.openPart s t := hs ▸ h
  unfold Splitter.settleReturn
  rw [← H.state h]
  cases hs : s.state with
  | afterReturn =>
    have hline (state : SplitState) :=
      H.endLineTo_entered state (hpart hs) (by decide) (Nat.le_of_eq (by rw [hs]))
    have hrank := OpenPart.rank_nothing_le
    dsimp only
    split_ifs
    · exact (hline _).bind fun _ _ h => .ok ⟨H.steady h.1 (hrank _), rfl⟩
    · refine (hline .fieldStart).bind fun a b h => .ok ⟨H.steady (H.closed h.1) ?_, rfl⟩
      rw [show a.closeField.state = .fieldStart from h.2]
      decide
    · exact (hline _).bind fun _ _ h => .ok ⟨H.steady h.1 (hrank _), rfl⟩
    · exact (hline _).bind fun _ _ h => .ok ⟨H.steady h.1 (hrank _), rfl⟩
  | afterIgnoredReturn =>
    exact .ok ⟨H.steady (H.enter _ (hpart hs)) (OpenPart.rank_nothing_le _), rfl⟩
  | _ => exact .ok ⟨h, rfl⟩

theorem readByte (h : Steady R s t) :
    Agree R excuse (Steady R) (s.readByte d c) (t.readByte d c) := by
  refine (H.settleReturn c h).bind ?_
  rintro ⟨s, usedUp⟩ ⟨t, _⟩ ⟨h, rfl⟩
  dsimp only
  split_ifs
  · exact .ok h
  · exact H.accept c h

end Bytes

section Runs

variable (H : Lockstep d excuse R)

include H

theorem scan (limit : Option Nat)
    (hreach : ∀ {p : OpenPart} {s t : Splitter}, R p s t → s.reached limit = t.reached limit)
    (bytes : List UInt8) (h : Steady R s t) :
    Agree R excuse (fun a b => Steady R a.1 b.1 ∧ a.2 = b.2) (s.scan d limit bytes)
      (t.scan d limit bytes) := by
  induction bytes generalizing s t with
  | nil => exact .ok ⟨h, rfl⟩
  | cons c rest ih =>
    rw [Splitter.scan, Splitter.scan, hreach h]
    split_ifs
    · exact .ok ⟨h, rfl⟩
    refine (H.settleReturn c h).bind ?_
    rintro ⟨s, usedUp⟩ ⟨t, _⟩ ⟨h, rfl⟩
    dsimp only at h ⊢
    rw [hreach h]
    split_ifs
    · exact ih h
    · exact .ok ⟨h, rfl⟩
    · exact (H.accept c h).bind fun _ _ h => ih h

theorem readAll (bytes : List UInt8) (h : Steady R s t) :
    Agree R excuse (Steady R) (s.readAll d bytes) (t.readAll d bytes) := by
  induction bytes generalizing s t with
  | nil => exact .ok h
  | cons c rest ih =>
    rw [readAll_cons, readAll_cons]
    exact (H.readByte c h).bind fun _ _ h => ih h

theorem endLastLine (h : Steady R s t) :
    Agree R excuse (R .nothing) (s.endLastLine d) (t.endLastLine d) := by
  have hpart {state : SplitState} (hs : s.state = state) : R state.openPart s t := hs ▸ h
  unfold Splitter.endLastLine
  rw [← H.state h, ← H.fileLines h]
  cases hs : s.state with
  | lineStart | inBlanks | afterIgnoredReturn | inCommentLine | finished => exact .ok (hpart hs)
  | inQuotes | escapedInQuotes | escaped => exact .error rfl h
  | inField | afterQuote | fieldStart =>
    exact H.endLine (H.closed h) (by decide) (by rw [show s.closeField.state = _ from hs]; decide)
  | _ => exact H.endLine (hpart hs) (by decide) (Nat.le_of_eq (by rw [hs]))

theorem finish (h : Steady R s t) :
    Agree R excuse (R .nothing) (s.finish d) (t.finish d) :=
  (H.endLastLine h).bind fun _ _ h => .ok (H.enter .finished h)

end Runs

end Lockstep

end Splitter

end TypedTable.Csv
