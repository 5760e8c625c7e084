import TypedTable.Proofs.Csv.Bookkeeping

/-!
# Sessions in step

Two sessions that stand at the same place of one input, with splitters that are related, read on in
step if the relation is kept by the moves of splitters. How much room they made for fields on the
way there does not matter.
-/

set_option autoImplicit false

namespace TypedTable.Csv

open Splitter

namespace Splitter

/-! ## One splitter by itself -/

variable {d : Dialect} {P : Splitter → Prop}

def Alone (P : Splitter → Prop) (_ : OpenPart) (s t : Splitter) : Prop := s = t ∧ P s

theorem Alone.map {f : Splitter → Splitter} {p q : OpenPart} {s t : Splitter}
    (hf : P s → P (f s)) (h : Alone P p s t) : Alone P q (f s) (f t) :=
  ⟨congrArg f h.1, hf h.2⟩

structure Kept (d : Dialect) (P : Splitter → Prop) : Prop where
  enter {s : Splitter} (state : SplitState) : P s → P (s.enter state)
  push {s : Splitter} (byte : UInt8) : P s → P (s.push byte)
  closeField {s : Splitter} : P s → P s.closeField
  countLine {s : Splitter} : P s → P s.countLine
  discardLine {s : Splitter} : P s → P s.discardLine
  hold {s : Splitter} (blanks : Array UInt8) : P s → P { s with heldBlanks := blanks }
  endLine {s : Splitter} : P s → Yields P (fun halted => P halted.left) (s.endLine d)

theorem Kept.lockstep (H : Kept d P) : Lockstep d (fun _ => False) (Alone P) where
  state h := congrArg _ h.1
  heldBlanks h := congrArg _ h.1
  fileLines h := congrArg _ h.1
  loosen h _ := h
  enter state := Alone.map (f := fun u => u.enter state) (H.enter state)
  push byte := Alone.map (f := fun u => u.push byte) (H.push byte)
  closeField := Alone.map H.closeField
  countLine := Alone.map H.countLine
  discardLine := Alone.map H.discardLine
  hold blanks := Alone.map (f := ({ · with heldBlanks := blanks })) (H.hold blanks)
  endLine {p s t} h _ _ := by
    obtain ⟨rfl, h⟩ := h
    have hended := H.endLine h
    cases he : s.endLine d with
    | ok u =>
      rw [he] at hended
      exact .ok ⟨rfl, hended⟩
    | error halted =>
      rw [he] at hended
      exact .error rfl ⟨rfl, hended⟩

theorem Kept.maintains (H : Kept d P) (limit : Option Nat) :
    Session.Maintains d limit (fun s => Steady (Alone P) s s)
      (fun halted => Alone P halted.openPart halted.left halted.left) :=
  H.lockstep.maintains (fun _ => id) (fun h => congrArg (·.lines.size) h.1) limit

theorem kept_true (d : Dialect) : Kept d fun _ => True where
  enter _ _ := trivial
  push _ _ := trivial
  closeField _ := trivial
  countLine _ := trivial
  discardLine _ := trivial
  hold _ _ := trivial
  endLine {s} _ := by cases s.endLine d <;> trivial

theorem firstSize_closeFields (s : Splitter) (count : Nat) :
    (s.closeFields count).stream.firstSize = s.stream.firstSize := by
  induction count generalizing s with
  | zero => rfl
  | succ count ih => exact ih s.closeField

theorem kept_firstSize (d : Dialect) (size : Nat) : Kept d (·.stream.firstSize = size) where
  enter _ h := h
  push _ h := h
  closeField h := h
  countLine h := h
  discardLine h := (firstSize_dropLast _ _).trans h
  hold _ h := h
  endLine {s} h := by
    have hleft : s.countLine.discardLine.stream.firstSize = size :=
      (firstSize_dropLast _ _).trans h
    unfold Splitter.endLine
    split_ifs
    · exact hleft
    cases s.requiredFields d with
    | none => exact h
    | some expected =>
      dsimp only
      split_ifs
      · unfold rejectLine
        cases d.onBadLines <;> exact hleft
      · unfold padLine
        split_ifs
        · exact h
        · cases s.stream.checkRoom (expected - s.openFields) with
          | ok => exact (firstSize_closeFields s _).trans h
          | error fault => exact h

end Splitter

/-! ## Two sessions -/

namespace Session

/-- The sessions differ in their splitters, which are related, and in the room they asked for. -/
structure InStep (R : OpenPart → Splitter → Splitter → Prop) (t s : Session) : Prop where
  splitter : Steady R t.splitter s.splitter
  chunkSize : t.chunkSize = s.chunkSize
  unread : t.unread = s.unread
  exhausted : t.exhausted = s.exhausted
  mark : t.mark = s.mark

end Session

inductive Progress.Agree (R : OpenPart → Splitter → Splitter → Prop) (excuse : ReadFault → Prop) :
    Progress → Progress → Prop
  | ok {t s : Session} (feed : Feed) (h : t.InStep R s) :
    Agree R excuse ⟨t, feed, none⟩ ⟨s, feed, none⟩
  | fault {t s : Session} {fault : ReadFault} (feed : Feed) (h : R .bytes t.splitter s.splitter) :
    Agree R excuse ⟨t, feed, some fault⟩ ⟨s, feed, some fault⟩
  | excused {p q : Progress} {fault : ReadFault} (hq : q.fault = some fault) (h : excuse fault) :
    Agree R excuse p q

namespace Session

inductive Agree (R : OpenPart → Splitter → Splitter → Prop) (excuse : ReadFault → Prop) :
    Except (Halted Session) Session → Except (Halted Session) Session → Prop
  | ok {t s : Session} (h : t.InStep R s) : Agree R excuse (.ok t) (.ok s)
  | error {fault : ReadFault} {t s : Session} (h : R .bytes t.splitter s.splitter) :
    Agree R excuse (.error ⟨fault, t⟩) (.error ⟨fault, s⟩)
  | excused {result : Except (Halted Session) Session} {halted : Halted Session}
    (h : excuse halted.fault) : Agree R excuse result (.error halted)

variable {d : Dialect} {limit : Option Nat} {R : OpenPart → Splitter → Splitter → Prop}
  {excuse : ReadFault → Prop} {s t : Session}

theorem Agree.progress {first second : Except (Halted Session) Session}
    (h : Agree R excuse first second) (feed : Feed) :
    Progress.Agree R excuse (Session.progress feed first) (Session.progress feed second) := by
  cases h with
  | ok h => exact .ok feed h
  | error h => exact .fault feed h
  | excused h => exact .excused rfl h

theorem Agree.bind {first second : Except (Halted Session) Session}
    {f g : Session → Except (Halted Session) Session} (h : Agree R excuse first second)
    (hf : ∀ t s : Session, t.InStep R s → Agree R excuse (f t) (g s)) :
    Agree R excuse (first >>= f) (second >>= g) := by
  cases h with
  | ok h => exact hf _ _ h
  | error h => exact .error h
  | excused h => exact .excused h

theorem InStep.settleMark (h : t.InStep R s) : t.settleMark.InStep R s.settleMark := by
  unfold Session.settleMark
  rw [h.mark, h.unread]
  split
  · exact h
  · dsimp only
    split_ifs <;> exact ⟨h.splitter, h.chunkSize, rfl, h.exhausted, rfl⟩

/-! ## What is made of a piece -/

theorem isFinished_eq_false_iff : s.isFinished = false ↔ s.splitter.state ≠ .finished := by
  simp [isFinished, Splitter.isFinished]

def endInput (d : Dialect) (limit : Option Nat) (s : Session) : Except (Halted Session) Session :=
  if s.splitter.reached limit then .ok s
  else match s.splitter.finish d with
    | .ok splitter => .ok { s with splitter := splitter }
    | .error halted => .error ⟨halted.fault, { s with splitter := halted.left }⟩

theorem conclude_eq (d : Dialect) (limit : Option Nat) (s : Session) :
    s.conclude d limit = s.releaseMark.digest d limit >>= endInput d limit := rfl

theorem pull_of_unsettled (feed : Feed) (hs : s.isSettled limit = false) :
    s.pull d limit feed =
      if s.exhausted then progress feed (s.conclude d limit)
      else match (feed.read s.chunkSize).1 with
        | .failure text => ⟨s, (feed.read s.chunkSize).2, some (.readFailed text)⟩
        | .endOfInput | .bytes [] =>
          progress (feed.read s.chunkSize).2 ({ s with exhausted := true }.conclude d limit)
        | .bytes (byte :: piece) =>
          match { s with unread := byte :: piece }.digest d limit with
          | .ok next => next.pull d limit (feed.read s.chunkSize).2
          | .error halted => ⟨halted.left, (feed.read s.chunkSize).2, some halted.fault⟩ := by
  rw [pull, if_neg (by simp [hs])]
  split_ifs
  · rfl
  split
  next text hread => rw [hread]
  next hread => rw [hread]
  next hread => rw [hread]
  next byte piece hread => exact hread ▸ rfl

section Lockstep

variable (H : Lockstep d excuse R)
  (hreach : ∀ {p : OpenPart} {u v : Splitter}, R p u v → u.reached limit = v.reached limit)

include H hreach

theorem agree_digest (h : t.InStep R s) :
    Agree R excuse (t.digest d limit) (s.digest d limit) := by
  have hsettled := h.settleMark
  rw [digest_eq, digest_eq, hsettled.mark, hsettled.unread]
  split_ifs
  · exact .ok hsettled
  · have hscan := H.scan limit hreach s.settleMark.unread h.splitter
    generalize t.splitter.scan d limit s.settleMark.unread = first at hscan
    generalize s.splitter.scan d limit s.settleMark.unread = second at hscan
    cases hscan with
    | @ok a b h =>
      obtain ⟨u, rest⟩ := a
      obtain ⟨v, rest'⟩ := b
      obtain ⟨h, rfl⟩ := h
      exact .ok ⟨h, hsettled.chunkSize, rfl, hsettled.exhausted, hsettled.mark⟩
    | @error first second hf h =>
      obtain ⟨fault, left⟩ := first
      obtain rfl : fault = second.fault := hf
      exact .error (H.loosen h (OpenPart.rank_le_bytes _))
    | excused h => exact .excused h

theorem agree_endInput (h : t.InStep R s) :
    Agree R excuse (t.endInput d limit) (s.endInput d limit) := by
  unfold endInput
  rw [hreach h.splitter]
  split_ifs
  · exact .ok h
  · have hfinish := H.finish h.splitter
    generalize t.splitter.finish d = first at hfinish
    generalize s.splitter.finish d = second at hfinish
    cases hfinish with
    | ok hfinished =>
      exact .ok ⟨H.steady hfinished (OpenPart.rank_nothing_le _), h.chunkSize, h.unread,
        h.exhausted, h.mark⟩
    | @error first second hf hleft =>
      obtain ⟨fault, left⟩ := first
      obtain rfl : fault = second.fault := hf
      exact .error (H.loosen hleft (OpenPart.rank_le_bytes _))
    | excused h => exact .excused h

theorem agree_conclude (h : t.InStep R s) :
    Agree R excuse (t.conclude d limit) (s.conclude d limit) := by
  have hreleased : t.releaseMark.InStep R s.releaseMark :=
    ⟨h.splitter, h.chunkSize, by simp only [releaseMark, h.mark, h.unread], h.exhausted, rfl⟩
  rw [conclude_eq, conclude_eq]
  exact (agree_digest H hreach hreleased).bind fun _ _ h => agree_endInput H hreach h

theorem isSettled_eq (h : t.InStep R s) : t.isSettled limit = s.isSettled limit := by
  simp only [isSettled, isFinished, Splitter.isFinished, H.state h.splitter, hreach h.splitter]

theorem agree_pull (feed : Feed) (h : t.InStep R s) :
    Progress.Agree R excuse (t.pull d limit feed) (s.pull d limit feed) := by
  induction hw : feed.weight using Nat.strongRecOn generalizing feed s t with
  | _ weight ih =>
    have hsame := isSettled_eq H hreach h
    cases hsettled : s.isSettled limit with
    | true =>
      rw [pull, if_pos (hsame.trans hsettled), pull, if_pos hsettled]
      exact .ok feed h
    | false =>
      rw [pull_of_unsettled feed (hsame.trans hsettled), pull_of_unsettled feed hsettled]
      obtain ⟨u, chunkSize, unread, exhausted, mark, reserved, widest⟩ := t
      obtain ⟨hsplitter, rfl, rfl, rfl, rfl⟩ := id h
      dsimp only at hsplitter ⊢
      -- the rooms differ, and the sessions are in step whatever they are
      have hend (later : Feed) := (agree_conclude H hreach
        (t := ⟨u, s.chunkSize, s.unread, true, s.mark, reserved, widest⟩)
        (s := { s with exhausted := true }) ⟨hsplitter, rfl, rfl, rfl, rfl⟩).progress later
      split_ifs
      · exact (agree_conclude H hreach h).progress feed
      cases hread : (feed.read s.chunkSize).1 with
      | failure text => exact .fault _ (H.loosen hsplitter (OpenPart.rank_le_bytes _))
      | endOfInput => exact hend _
      | bytes piece =>
        cases piece with
        | nil => exact hend _
        | cons byte piece =>
          have hless := hw ▸ Feed.weight_read_lt hread (List.cons_ne_nil byte piece)
          have hdigest := agree_digest H hreach
            (t := ⟨u, s.chunkSize, byte :: piece, s.exhausted, s.mark, reserved, widest⟩)
            (s := { s with unread := byte :: piece }) ⟨hsplitter, rfl, rfl, rfl, rfl⟩
          dsimp only
          generalize digest d limit _ = first at hdigest ⊢
          generalize digest d limit { s with unread := byte :: piece } = second at hdigest ⊢
          cases hdigest with
          | ok h => exact ih _ hless _ h rfl
          | error h => exact .fault _ h
          | excused h => exact .excused rfl h

theorem agree_tokenize (feed : Feed) (h : t.InStep R s) :
    Progress.Agree R excuse (t.tokenize d limit feed) (s.tokenize d limit feed) := by
  unfold tokenize
  rw [isSettled_eq H hreach h]
  split_ifs
  · exact .ok feed h
  · have hdigest := agree_digest H hreach h
    generalize t.digest d limit = first at hdigest
    generalize s.digest d limit = second at hdigest
    cases hdigest with
    | ok h => exact agree_pull H hreach feed h
    | error h => exact .fault feed h
    | excused h => exact .excused rfl h

end Lockstep

end Session

end TypedTable.Csv
