import Mathlib.Algebra.GroupWithZero.Nat
import TypedTable.Csv.Session
import TypedTable.Proofs.Csv.Trailing

/-!
# The books of a session

Whatever is asked of a session, and whatever failed before, its splitter counts and cuts right: the
committed lines follow one another without a gap, and so do the regions of the fields in the stream.
A request adds lines at the end or gives up the first ones; nothing of a discarded line stays behind.
-/

set_option autoImplicit false

namespace TypedTable.Csv

/-! ## What requests keep -/

def Halted.splitter (halted : Halted Session) : Halted Splitter :=
  ⟨halted.fault, halted.left.splitter⟩

/-- The splitter has `P`; it has `E` as well if its input is what failed. -/
def Progress.Leaves (P : Splitter → Prop) (E : Halted Splitter → Prop) (p : Progress) : Prop :=
  P p.session.splitter ∧
    ∀ fault, p.fault = some fault →
      (∃ text, fault = .readFailed text) ∨ E ⟨fault, p.session.splitter⟩

theorem Halted.openPart_rank_le (halted : Halted Splitter) :
    halted.openPart.rank ≤ halted.left.state.openPart.rank := by
  unfold Halted.openPart
  split
  · exact OpenPart.rank_nothing_le _
  · exact Nat.le_refl _

namespace Session

structure Maintains (d : Dialect) (limit : Option Nat) (P : Splitter → Prop)
    (E : Halted Splitter → Prop) : Prop where
  scan {s : Splitter} (bytes : List UInt8) : P s → Yields (P ·.1) E (s.scan d limit bytes)
  finish {s : Splitter} : P s → s.reached limit = false → Yields P E (s.finish d)
  left {halted : Halted Splitter} : E halted → P halted.left

variable {d : Dialect} {limit : Option Nat} {P : Splitter → Prop} {E : Halted Splitter → Prop}
  {s : Session}

@[simp] theorem splitter_settleMark (s : Session) : s.settleMark.splitter = s.splitter := by
  unfold settleMark
  split
  · rfl
  · dsimp only
    split <;> rfl

theorem digest_eq (d : Dialect) (limit : Option Nat) (s : Session) :
    s.digest d limit =
      if s.settleMark.mark.isSome then .ok s.settleMark
      else match s.splitter.scan d limit s.settleMark.unread with
        | .ok (splitter, rest) =>
          .ok { s.settleMark.makeRoom with splitter := splitter, unread := rest }
        | .error halted =>
          .error ⟨halted.fault, { s.settleMark.makeRoom with splitter := halted.left }⟩ := by
  rw [← splitter_settleMark s]
  rfl

theorem exists_trim_eq (s : Session) : ∃ splitter reserved widest,
    s.trim = { s with splitter := splitter, reserved := reserved, widest := widest } ∧
    (splitter = s.splitter ∨
      ∃ size, splitter = { s.splitter with stream := s.splitter.stream.resize size }) := by
  unfold trim
  dsimp only
  split_ifs
  · exact ⟨_, _, _, rfl, .inr ⟨_, rfl⟩⟩
  · exact ⟨_, _, _, rfl, .inl rfl⟩

namespace Maintains

variable (H : Maintains d limit P E)

include H

theorem digest (h : P s.splitter) :
    Yields (P ·.splitter) (E ·.splitter) (s.digest d limit) := by
  rw [digest_eq]
  split_ifs
  · show P s.settleMark.splitter
    rwa [splitter_settleMark]
  · have hscan := H.scan s.settleMark.unread h
    cases hs : s.splitter.scan d limit s.settleMark.unread with
    | ok result =>
      rw [hs] at hscan
      exact hscan
    | error halted =>
      rw [hs] at hscan
      exact hscan

theorem conclude (h : P s.splitter) :
    Yields (P ·.splitter) (E ·.splitter) (s.conclude d limit) := by
  unfold Session.conclude
  refine (H.digest (s := s.releaseMark) h).bind fun next hnext => ?_
  split_ifs with hreached
  · exact hnext
  · have hfinish := H.finish hnext (by simpa using hreached)
    cases hf : next.splitter.finish d with
    | ok splitter =>
      rw [hf] at hfinish
      exact hfinish
    | error halted =>
      rw [hf] at hfinish
      exact hfinish

theorem progress {r : Except (Halted Session) Session}
    (h : Yields (P ·.splitter) (E ·.splitter) r) (feed : Feed) :
    (Session.progress feed r).Leaves P E := by
  cases r with
  | ok next => exact ⟨h, fun fault hf => by cases hf⟩
  | error halted =>
    refine ⟨H.left h, fun fault hf => .inr ?_⟩
    cases hf
    exact h

theorem pull (feed : Feed) (h : P s.splitter) : (s.pull d limit feed).Leaves P E := by
  induction hw : feed.weight using Nat.strongRecOn generalizing feed s with
  | _ weight ih =>
    rw [Session.pull]
    split_ifs
    · exact ⟨h, fun fault hf => by cases hf⟩
    · exact H.progress (H.conclude h) feed
    split
    next text _ =>
      refine ⟨h, fun fault hf => .inl ⟨text, ?_⟩⟩
      cases hf
      rfl
    next => exact H.progress (H.conclude (s := { s with exhausted := true }) h) _
    next => exact H.progress (H.conclude (s := { s with exhausted := true }) h) _
    next byte piece hread =>
      have hdigest := H.digest (s := { s with unread := byte :: piece }) h
      split
      next next' hok =>
        rw [hok] at hdigest
        exact ih _ (hw ▸ Feed.weight_read_lt hread (List.cons_ne_nil byte piece)) _ hdigest rfl
      next halted herror =>
        rw [herror] at hdigest
        exact H.progress (r := .error halted) hdigest _

theorem tokenize (feed : Feed) (h : P s.splitter) : (s.tokenize d limit feed).Leaves P E := by
  unfold Session.tokenize
  split_ifs
  · exact ⟨h, fun fault hf => by cases hf⟩
  have hdigest := H.digest h
  cases hok : s.digest d limit with
  | ok next =>
    rw [hok] at hdigest
    exact H.pull feed hdigest
  | error halted =>
    rw [hok] at hdigest
    exact H.progress (r := .error halted) hdigest feed

end Maintains

/-- What reading and another size of the table keep, every request keeps but the one that gives up
lines. -/
theorem Maintains.perform (H : ∀ limit, Maintains d limit P E)
    (hresize : ∀ (t : Splitter) (size : Nat), P t → P { t with stream := t.stream.resize size })
    {request : Request} (feed : Feed) (hr : ∀ count, request ≠ .drop count) (h : P s.splitter) :
    (request.perform d feed s).Leaves P E := by
  have hkept : (⟨s, feed, none⟩ : Progress).Leaves P E := ⟨h, fun fault hf => by cases hf⟩
  cases request with
  | all => exact (H none).tokenize feed h
  | lines count =>
    show (s.tokenizeLines d count feed).Leaves _ _
    unfold tokenizeLines
    split_ifs
    · exact hkept
    · exact (H _).tokenize feed h
  | drop count => exact absurd rfl (hr count)
  | trim =>
    refine ⟨?_, fun fault hf => by cases hf⟩
    obtain ⟨splitter, reserved, widest, htrim, rfl | ⟨size, rfl⟩⟩ := s.exists_trim_eq
    all_goals
      show P s.trim.splitter
      rw [htrim]
    · exact h
    · exact hresize s.splitter size h

end Session

/-! ## What the books say -/

namespace Splitter

def startOfLine (s : Splitter) (index : Nat) : Nat :=
  ((s.lines[index]?).map (·.start)).getD s.lineStart

def OnlyCommitted (s : Splitter) : Prop :=
  s.stream.bytes.toList = FieldStream.encoded s.rows.flatten

structure InOrder (s : Splitter) : Prop where
  firstLine : s.startOfLine 0 = 0
  nextLine : ∀ (index : Nat) (h : index < s.lines.size),
    s.startOfLine (index + 1) = s.startOfLine index + s.lines[index].fields
  fields : s.stream.size = (s.lines.toList.map (·.fields)).sum + s.openFields
  increasing : (s.lines.toList.map (·.number)).Pairwise (· < ·)
  counted : ∀ line ∈ s.lines, line.number ≤ s.fileLines
  firstField : s.stream.start 0 = 0
  /-- A field is cut out of the stream without its zero byte. -/
  region : ∀ index < s.stream.size,
    s.stream.start index < s.stream.start (index + 1) ∧
      s.stream.start (index + 1) ≤ s.stream.bytes.size ∧
      s.stream.bytes[s.stream.start (index + 1) - 1]? = some 0
  /-- Nothing stands between the fields or before the first one. -/
  gapless : s.stream.bytes.toList.take s.stream.openStart =
    FieldStream.encoded ((List.range s.stream.size).map s.stream.field)
  onlyCommitted : s.state.openPart = .nothing → s.OnlyCommitted
  /-- Discarding the line under construction, with the field being built finished or without one,
  takes all of its bytes away. -/
  discarded : s.closeField.discardLine.OnlyCommitted ∧
    s.closeField.discardLine.records = s.records ∧
    (s.state.openPart ≠ .bytes → s.discardLine.OnlyCommitted ∧ s.discardLine.records = s.records)

variable {d : Dialect} {base records : List (Nat × List (List UInt8))} {p : OpenPart}
  {s : Splitter} {fields : List (List UInt8)} {rest : List UInt8}

theorem Keeps.onlyCommitted (h : s.Keeps records [] []) : s.OnlyCommitted := by
  rw [OnlyCommitted, h.holds.rows_eq, h.holds.stream.bytes, List.append_nil, List.append_nil]

theorem Trails.onlyCommitted (h : Trails d base 0 False .nothing s s) : s.OnlyCommitted := by
  obtain ⟨records, fields, rest, -, -, hallows, -, hs⟩ := h.contents
  obtain rfl : fields = [] := hallows.2 rfl
  obtain rfl : rest = [] := hallows.1 (by decide)
  exact hs.onlyCommitted

theorem Keeps.discards (h : s.Keeps records fields []) :
    s.discardLine.OnlyCommitted ∧ s.discardLine.records = records := by
  have hleft : s.discardLine.Keeps records [] [] := ⟨h.holds.discardLine, h.numbers⟩
  exact ⟨hleft.onlyCommitted, hleft.records_eq⟩

theorem Holds.sum_fields {rows : List (List (List UInt8))} (h : s.Holds rows fields rest) :
    (s.lines.toList.map (·.fields)).sum = rows.flatten.length := by
  rw [List.length_flatten]
  congr 1
  apply List.ext_getElem
  · simp [h.count]
  intro index hi hr
  simp only [List.length_map, Array.length_toList] at hi hr
  simp only [List.getElem_map, Array.getElem_toList]
  exact (h.line index hi hr).2

theorem Trails.inOrder (h : Steady (Trails d base 0 False) s s) : s.InOrder := by
  obtain ⟨records, fields, rest, -, -, hallows, -, hs⟩ := h.contents
  have hrows {index : Nat} (hi : index ≤ s.lines.size) :
      s.startOfLine index = ((records.map (·.2)).take index).flatten.length :=
    hs.holds.start_of_kept (by rwa [← hs.holds.count])
  have hstream := hs.holds.stream
  have hclosed : s.closeField.Keeps records (fields ++ [rest]) [] :=
    ⟨hs.holds.closeField, hs.numbers⟩
  refine
    { firstLine := by rw [hrows (Nat.zero_le _)]; rfl
      nextLine := fun index hi => ?_
      fields := ?_
      increasing := h.increasing
      counted := h.counted
      firstField := hstream.start 0 (Nat.zero_le _)
      region := fun index hi => hstream.region (hstream.size ▸ hi)
      gapless := ?_
      onlyCommitted := fun hp => ?_
      discarded := hs.records_eq.symm ▸ ⟨hclosed.discards.1, hclosed.discards.2, fun hp => ?_⟩ }
  · have hr : index < (records.map (·.2)).length := hs.holds.count ▸ hi
    rw [hrows hi, hrows (Nat.le_of_lt hi), (hs.holds.line index hi hr).2,
      List.take_succ_eq_append_getElem hr, List.flatten_append, List.flatten_singleton,
      List.length_append]
  · rw [FieldStream.size, hstream.size, List.length_append, hs.holds.sum_fields,
      hs.holds.openFields]
  · rw [hstream.map_field, hstream.bytes, hstream.openStart, List.take_left]
  · rw [Steady, hp] at h
    exact h.onlyCommitted
  · obtain rfl : rest = [] := hallows.1 hp
    exact hs.discards

end Splitter

/-! ## Every session -/

/-- The sessions that requests lead to, whatever feeds they are given. A read that fails may have
delivered bytes before. -/
inductive Session.Reachable (d : Dialect) : Session → Prop
  | start (headerLines : Nat) (anyWidth : Bool) (chunkSize : Nat) :
    Reachable d (Session.start headerLines anyWidth chunkSize)
  | perform {s : Session} (request : Request) (feed : Feed) :
    Reachable d s → Reachable d (request.perform d feed s).session
  | deliver {s : Session} (bytes : List UInt8) :
    Reachable d s → Reachable d { s with unread := s.unread ++ bytes }

/-- What sessions start with and what requests keep holds of all of them. -/
theorem Session.Reachable.keeps {d : Dialect} {P : Splitter → Prop} {E : Halted Splitter → Prop}
    {s : Session} (H : ∀ limit, Session.Maintains d limit P E)
    (hstart : ∀ headerLines anyWidth, P { headerLines := headerLines, anyWidth := anyWidth })
    (hdrop : ∀ (t : Splitter) (count : Nat), P t → P (t.dropLines count))
    (hresize : ∀ (t : Splitter) (size : Nat), P t → P { t with stream := t.stream.resize size })
    (h : s.Reachable d) : P s.splitter := by
  induction h with
  | start headerLines anyWidth chunkSize => exact hstart headerLines anyWidth
  | @perform s request feed _ ih =>
    by_cases hr : ∃ count, request = .drop count
    · obtain ⟨count, rfl⟩ := hr
      exact hdrop s.splitter count ih
    · exact (Session.Maintains.perform H hresize feed (fun count h => hr ⟨count, h⟩) ih).1
  | deliver bytes _ ih => exact ih

namespace Splitter

variable {R : OpenPart → Splitter → Splitter → Prop} {excuse : ReadFault → Prop}

theorem Agree.self {α : Type} {P : α → α → Prop} {result : Except (Halted Splitter) α}
    (hnever : ∀ fault, ¬ excuse fault) (h : Agree R excuse P result result) :
    Yields (fun a => P a a) (fun halted => R halted.openPart halted.left halted.left) result := by
  cases result with
  | ok a =>
    cases h with
    | ok h => exact h
  | error halted =>
    cases h with
    | error hf h => exact h
    | excused h => exact absurd h (hnever _)

theorem Lockstep.maintains {d : Dialect} (H : Lockstep d excuse R)
    (hnever : ∀ fault, ¬ excuse fault)
    (hsize : ∀ {p : OpenPart} {s t : Splitter}, R p s t → s.lines.size = t.lines.size)
    (limit : Option Nat) :
    Session.Maintains d limit (fun s => Steady R s s)
      (fun halted => R halted.openPart halted.left halted.left) where
  scan {s} bytes h := by
    have hreach {p : OpenPart} {s t : Splitter} (h : R p s t) :
        s.reached limit = t.reached limit := by
      unfold Splitter.reached
      rw [hsize h]
    have hscan := (H.scan limit hreach bytes h).self hnever
    cases hs : s.scan d limit bytes with
    | ok result =>
      rw [hs] at hscan
      exact hscan.1
    | error halted =>
      rw [hs] at hscan
      exact hscan
  finish {s} h _ := by
    have hfinish := (H.finish h).self hnever
    cases hs : s.finish d with
    | ok t =>
      rw [hs] at hfinish
      exact H.loosen hfinish (OpenPart.rank_nothing_le _)
    | error halted =>
      rw [hs] at hfinish
      exact hfinish
  left h := H.loosen h (Halted.openPart_rank_le _)

theorem Trails.maintains (d : Dialect) (base : List (Nat × List (List UInt8)))
    (limit : Option Nat) :
    Session.Maintains d limit (fun s => Steady (Trails d base 0 False) s s)
      (fun halted => Trails d base 0 False halted.openPart halted.left halted.left) :=
  (lockstep d base 0 False).maintains not_roomExcuse
    (fun h => by rw [h.size.2, Nat.sub_zero]) limit

end Splitter

namespace Session.Reachable

open Splitter

variable {d : Dialect} {s : Session}

theorem steady (h : s.Reachable d) : Steady (Trails d [] 0 False) s.splitter s.splitter := by
  refine h.keeps (P := fun s => Steady (Trails d [] 0 False) s s) (Trails.maintains d [])
    (fun headerLines anyWidth => ?_) (fun t count ht => ?_) fun t size ht => ht.resizeBoth size
  · exact Trails.start d False headerLines anyWidth
  · have hdrop := ht.dropBoth count
    rw [← (dropLines_others t count).1, List.drop_nil] at hdrop
    exact hdrop

/-- In every state that requests lead to, also after failures, lines and fields follow one another
without a gap and the line numbers increase. The next request adds records at the end or gives up
the first ones, and a line that is refused for its number of fields is gone from the stream. -/
theorem inOrder_perform (h : s.Reachable d) :
    s.splitter.InOrder ∧ ∀ (request : Request) (feed : Feed),
      let p := request.perform d feed s
      (match request with
        | .drop count => p.session.splitter.records = s.splitter.records.drop count
        | _ => s.splitter.records <+: p.session.splitter.records) ∧
      ∀ line expected seen,
        p.fault = some (.malformed (.tooManyFields line expected seen)) →
          p.session.splitter.OnlyCommitted := by
  have hsteady := h.steady
  refine ⟨Trails.inOrder hsteady, fun request feed => ?_⟩
  have hbase := Trails.rebase hsteady
  have hadds (hr : ∀ count, request ≠ .drop count) :
      s.splitter.records <+: (request.perform d feed s).session.splitter.records ∧
        ∀ line expected seen, (request.perform d feed s).fault =
          some (.malformed (.tooManyFields line expected seen)) →
            (request.perform d feed s).session.splitter.OnlyCommitted := by
    obtain ⟨hleft, hfault⟩ := Session.Maintains.perform (Trails.maintains d _)
      (fun t size ht => ht.resizeBoth size) feed hr hbase
    refine ⟨hleft.records_eq.1, fun line expected seen hf => ?_⟩
    obtain ⟨text, htext⟩ | hgone := hfault _ hf
    · cases htext
    · exact Trails.onlyCommitted hgone
  cases request with
  | drop count =>
    obtain ⟨records, fields, rest, -, -, -, -, hs⟩ := hsteady.contents
    refine ⟨?_, fun line expected seen hf => by cases hf⟩
    show (s.splitter.dropLines count).records = _
    rw [(hs.dropLines count).records_eq, hs.records_eq]
  | all => exact hadds (by simp)
  | lines count => exact hadds (by simp)
  | trim => exact hadds (by simp)

end Session.Reachable

namespace Session

/-- The second line of the input is refused, and the first one is given up after that. -/
theorem inOrder_refused_then_dropped :
    let p := Request.all.perform {} (.memory "a,b\n1,2,3\nc".toUTF8.toList) (start 0 false 4)
    let q := (Request.drop 1).perform {} p.feed p.session
    p.fault = some (.malformed (.tooManyFields 2 2 3)) ∧ p.session.splitter.OnlyCommitted ∧
      q.session.splitter.InOrder ∧
      q.session.splitter.records = p.session.splitter.records.drop 1 := by
  intro p q
  have hstart : (start 0 false 4).Reachable {} := .start 0 false 4
  have hfault : p.fault = some (.malformed (.tooManyFields 2 2 3)) := by decide +kernel
  have hp : p.session.Reachable {} := hstart.perform _ _
  exact ⟨hfault, (hstart.inOrder_perform.2 _ _).2 2 2 3 hfault,
    (hp.perform _ p.feed).inOrder_perform.1, (hp.inOrder_perform.2 (.drop 1) p.feed).1⟩

end Session

end TypedTable.Csv
