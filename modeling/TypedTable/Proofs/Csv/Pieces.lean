import TypedTable.Csv.Session
import TypedTable.Proofs.Csv.Scanning

/-!
# Input in pieces

What a session makes of its input depends on the bytes alone: not on where the feed cuts them, and
not on reads that failed in between, as long as the session is asked again. A session that has split
all it was given so far stands for one function of the bytes to come, `Session.ending`; each delivery
keeps what that function says.
-/

set_option autoImplicit false

namespace TypedTable.Csv

/-- What can be wrong with the bytes of an input, however they arrive. -/
def ReadFault.isContentFault : ReadFault → Bool
  | .malformed _ | .overflow _ | .memoryExhausted _ => true
  | _ => false

theorem ReadFault.ne_readFailed {fault : ReadFault} (h : fault.isContentFault = true)
    (text : String) : fault ≠ .readFailed text := by
  rintro rfl
  cases h

/-! ## What a feed holds -/

namespace Delivery

/-- The bytes of some deliveries up to the one that ends the input. An empty piece ends it too. -/
def content : List Delivery → List UInt8
  | [] => []
  | .endOfInput :: _ => []
  | .failure _ :: later => content later
  | .bytes [] :: _ => []
  | .bytes (byte :: piece) :: later => byte :: piece ++ content later

def failures : List Delivery → Nat
  | [] => 0
  | .endOfInput :: _ => 0
  | .failure _ :: later => failures later + 1
  | .bytes [] :: _ => 0
  | .bytes (_ :: _) :: later => failures later

end Delivery

namespace Feed

/-- All bytes that a feed is going to deliver. -/
def content : Feed → List UInt8
  | .memory unread => unread
  | .stream unread => unread
  | .script deliveries => Delivery.content deliveries

def failures : Feed → Nat
  | .memory _ => 0
  | .stream _ => 0
  | .script deliveries => Delivery.failures deliveries

variable {most : Nat} {feed : Feed}

theorem read_failure {text : String} (h : (feed.read most).1 = .failure text) :
    (feed.read most).2.content = feed.content ∧
      (feed.read most).2.failures + 1 = feed.failures := by
  match feed with
  | .memory [] => simp [read] at h
  | .memory (_ :: _) => simp [read] at h
  | .stream unread =>
    simp only [read] at h
    split at h <;> simp at h
  | .script [] => simp [read] at h
  | .script (.failure _ :: later) => exact ⟨rfl, rfl⟩
  | .script (.bytes _ :: _) => simp [read] at h
  | .script (.endOfInput :: _) => simp [read] at h

theorem read_piece {byte : UInt8} {piece : List UInt8}
    (h : (feed.read most).1 = .bytes (byte :: piece)) :
    feed.content = byte :: piece ++ (feed.read most).2.content ∧
      (feed.read most).2.failures = feed.failures := by
  match feed with
  | .memory [] => simp [read] at h
  | .memory (first :: rest) =>
    simp only [read, Delivery.bytes.injEq] at h
    simp [read, content, failures, ← h]
  | .stream unread =>
    simp only [read] at h
    split at h
    · simp at h
    · rename_i hu
      simp only [Delivery.bytes.injEq] at h
      simp only [read, hu, content, failures, and_true]
      rw [← h, ← hu, List.take_append_drop]
  | .script [] => simp [read] at h
  | .script (.failure _ :: _) => simp [read] at h
  | .script (.bytes [] :: _) => simp [read] at h
  | .script (.bytes (first :: rest) :: later) =>
    simp only [read, Delivery.bytes.injEq] at h
    simp [read, content, failures, Delivery.content, Delivery.failures, ← h]
  | .script (.endOfInput :: _) => simp [read] at h

theorem content_of_read_end (hm : 0 < most)
    (h : (feed.read most).1 = .endOfInput ∨ (feed.read most).1 = .bytes []) :
    feed.content = [] := by
  match feed with
  | .memory [] => rfl
  | .memory (first :: rest) =>
    obtain ⟨n, rfl⟩ : ∃ n, most = n + 1 := ⟨most - 1, by omega⟩
    simp [read] at h
  | .stream unread =>
    obtain ⟨n, rfl⟩ : ∃ n, most = n + 1 := ⟨most - 1, by omega⟩
    cases unread with
    | nil => rfl
    | cons first rest => simp [read] at h
  | .script [] => rfl
  | .script (.failure _ :: _) => simp [read] at h
  | .script (.bytes [] :: _) => rfl
  | .script (.bytes (_ :: _) :: _) => simp [read] at h
  | .script (.endOfInput :: _) => rfl

end Feed
/-! ## What the splitter cannot do -/

namespace Splitter

variable {d : Dialect} {s t : Splitter} {halted : Halted Splitter}

theorem Reaches.state_ne_finished (h : Reaches d s t) (hs : s.state ≠ .finished) :
    t.state ≠ .finished := by
  induction h with
  | refl => exact hs
  | enter state hf _ _ => exact hf
  | endLine _ he ih => exact (ended_of_endLine he).state ▸ ih
  | push _ _ ih | closeField _ ih | countLine _ ih | discardLine _ ih | hold _ _ ih => exact ih

theorem rejectLine_fault {expected : Nat} (h : s.rejectLine d expected = .error halted) :
    halted.fault.isContentFault = true := by
  unfold rejectLine at h
  dsimp only at h
  split at h <;> cases h
  rfl

theorem padLine_fault {missing : Nat} (h : s.padLine missing = .error halted) :
    halted.fault.isContentFault = true := by
  unfold padLine FieldStream.checkRoom at h
  dsimp only at h
  split_ifs at h <;> cases h <;> rfl

theorem endLine_fault (h : s.endLine d = .error halted) : halted.fault.isContentFault = true := by
  unfold endLine at h
  split_ifs at h
  split at h
  · split_ifs at h
    · exact rejectLine_fault h
    · rcases bind_eq_error_iff.1 h with h | ⟨u, -, hc⟩
      · exact padLine_fault h
      · cases hc
  · cases h

theorem readAll_fault {bytes : List UInt8} (h : s.readAll d bytes = .error halted) :
    halted.fault.isContentFault = true := by
  have hmoved := moved_readAll d bytes s
  rw [h] at hmoved
  obtain ⟨t, -, he⟩ := hmoved
  exact endLine_fault he

theorem endLastLine_fault (h : s.endLastLine d = .error halted) :
    halted.fault.isContentFault = true := by
  unfold endLastLine at h
  split at h
  all_goals first
    | exact endLine_fault h
    | cases h
  all_goals rfl

theorem finish_fault (h : s.finish d = .error halted) : halted.fault.isContentFault = true := by
  rcases bind_eq_error_iff.1 h with h | ⟨t, -, hf⟩
  · exact endLastLine_fault h
  · cases hf

end Splitter

/-! ## What a session makes of the rest of its input -/

theorem scan_none_ok {d : Dialect} {bytes : List UInt8} {s t : Splitter}
    (h : s.readAll d bytes = .ok t) : s.scan d none bytes = .ok (t, []) := by
  rw [Splitter.scan_none, h]
  rfl

theorem scan_none_error {d : Dialect} {bytes : List UInt8} {s : Splitter}
    {halted : Halted Splitter} (h : s.readAll d bytes = .error halted) :
    s.scan d none bytes = .error halted := by
  rw [Splitter.scan_none, h]
  rfl

namespace Session

def withoutMark (bytes : List UInt8) : List UInt8 :=
  if byteOrderMark <+: bytes then bytes.drop byteOrderMark.length else bytes

theorem withoutMark_suffix (bytes : List UInt8) : withoutMark bytes <:+ bytes := by
  unfold withoutMark
  split_ifs
  · exact List.drop_suffix _ _
  · exact List.suffix_rfl

def toSplit (s : Session) (bytes : List UInt8) : List UInt8 :=
  match s.mark with
  | none => bytes
  | some matched => withoutMark (byteOrderMark.take matched ++ bytes)

def ending (d : Dialect) (s : Session) (bytes : List UInt8) :
    Except (Halted Splitter) Splitter :=
  s.splitter.readAll d (s.toSplit bytes) >>= Splitter.finish d

structure Waiting (s : Session) : Prop where
  unread : s.unread = []
  open' : s.exhausted = false
  asks : 0 < s.chunkSize
  mark : ∀ matched, s.mark = some matched → matched < byteOrderMark.length
  unfinished : s.isFinished = false

theorem waiting_start (headerLines : Nat) (anyWidth : Bool) (chunkSize : Nat) :
    (Session.start headerLines anyWidth chunkSize).Waiting where
  unread := rfl
  open' := rfl
  asks := Nat.lt_of_lt_of_le Nat.zero_lt_one (Nat.le_max_left 1 chunkSize)
  mark matched h := by
    cases h
    decide
  unfinished := rfl

variable {d : Dialect} {s : Session}

theorem toSplit_of_matched {matched : Nat} (hm : s.mark = some matched) (bytes : List UInt8) :
    s.toSplit bytes = withoutMark (byteOrderMark.take matched ++ bytes) := by
  rw [toSplit, hm]

theorem mark_prefix_iff (matched : Nat) (bytes : List UInt8) :
    byteOrderMark <+: byteOrderMark.take matched ++ bytes ↔
      byteOrderMark.drop matched <+: bytes := by
  have h : byteOrderMark.take matched ++ byteOrderMark.drop matched <+:
      byteOrderMark.take matched ++ bytes ↔ byteOrderMark.drop matched <+: bytes :=
    List.prefix_append_right_inj _
  rwa [List.take_append_drop] at h

theorem withoutMark_complete {matched : Nat} {bytes : List UInt8}
    (h : byteOrderMark.drop matched <+: bytes) :
    withoutMark (byteOrderMark.take matched ++ bytes) =
      bytes.drop (byteOrderMark.drop matched).length := by
  obtain ⟨rest, rfl⟩ := h
  rw [withoutMark, if_pos ((mark_prefix_iff matched _).2 (List.prefix_append _ _)),
    ← List.append_assoc, List.take_append_drop, List.drop_left, List.drop_left]

theorem withoutMark_of_not_prefix {matched : Nat} {bytes : List UInt8}
    (h : ¬ byteOrderMark.drop matched <+: bytes) :
    withoutMark (byteOrderMark.take matched ++ bytes) = byteOrderMark.take matched ++ bytes :=
  if_neg fun hm => h ((mark_prefix_iff matched bytes).1 hm)

/-- After a piece the mark is still open, or it is clear what is to be split. -/
theorem settleMark_piece (piece : List UInt8) (hs : s.Waiting) : ∃ unread mark,
    ({ s with unread := piece } : Session).settleMark =
      { s with unread := unread, mark := mark } ∧
    ((mark = none ∧ ∀ later, s.toSplit (piece ++ later) = unread ++ later) ∨
      (unread = [] ∧ (∃ matched, mark = some matched ∧ matched < byteOrderMark.length) ∧
        ∀ later, s.toSplit (piece ++ later) = ({ s with mark := mark } : Session).toSplit later)) := by
  cases hm : s.mark with
  | none => exact ⟨piece, none, by simp [settleMark], .inl ⟨rfl, by simp [toSplit, hm]⟩⟩
  | some matched =>
    have hlt := hs.mark matched hm
    have hwanted : (byteOrderMark.drop matched).length = byteOrderMark.length - matched :=
      List.length_drop
    simp only [settleMark]
    generalize hcount : min (byteOrderMark.drop matched).length piece.length = count
    split_ifs with heq hopen
    · -- all of the piece belongs to the mark, which goes on
      have hlen : count = piece.length := by omega
      rw [hlen, List.take_length] at heq
      refine ⟨_, _, rfl, .inr ⟨?_, ⟨_, rfl, hopen⟩, fun later => ?_⟩⟩
      · rw [hlen, List.drop_length]
      · rw [toSplit_of_matched hm, toSplit_of_matched rfl, hlen, List.take_add, ← heq,
          List.append_assoc]
    · -- the mark ends in the piece
      have hlen : count = (byteOrderMark.drop matched).length := by omega
      rw [hlen, List.take_length] at heq
      have hstarts : byteOrderMark.drop matched <+: piece := heq ▸ List.take_prefix _ piece
      refine ⟨_, _, rfl, .inl ⟨rfl, fun later => ?_⟩⟩
      rw [toSplit_of_matched hm, withoutMark_complete (hstarts.trans (List.prefix_append _ _)),
        hlen, List.drop_append_of_le_length hstarts.length_le]
    · refine ⟨_, _, rfl, .inl ⟨rfl, fun later => ?_⟩⟩
      rw [toSplit_of_matched hm, withoutMark_of_not_prefix, List.append_assoc]
      intro hstarts
      have hle : count ≤ piece.length := by omega
      have htake := List.prefix_iff_eq_take.1 hstarts
      apply heq
      rw [htake, List.take_take, List.take_append_of_le_length (by omega)]
      congr 1
      omega

/-- A piece either leaves the session waiting with the same ending, or is where it fails. -/
theorem digest_piece (piece : List UInt8) (hs : s.Waiting) :
    match ({ s with unread := piece } : Session).digest d none with
    | .ok next => next.Waiting ∧ ∀ later, s.ending d (piece ++ later) = next.ending d later
    | .error halted =>
      ∀ later, s.ending d (piece ++ later) = .error ⟨halted.fault, halted.left.splitter⟩ := by
  rcases settleMark_piece piece hs with
      ⟨unread, mark, hsettle, ⟨rfl, hsplit⟩ | ⟨rfl, ⟨matched, rfl, hlt⟩, hsplit⟩⟩
  · simp only [digest, hsettle, makeRoom, Option.isSome_none, Bool.false_eq_true, if_false]
    have hmoved := Splitter.moved_readAll d unread s.splitter
    have hending (later : List UInt8) : s.ending d (piece ++ later) =
        s.splitter.readAll d unread >>= fun t => t.readAll d later >>= Splitter.finish d := by
      rw [ending, hsplit, Splitter.readAll_append, bind_assoc]
    cases hr : s.splitter.readAll d unread with
    | ok t =>
      rw [scan_none_ok hr]
      rw [hr] at hmoved
      refine ⟨⟨rfl, hs.open', hs.asks, by simp, ?_⟩, fun later => ?_⟩
      · have hne := hmoved.state_ne_finished (by simpa [isFinished, Splitter.isFinished] using hs.unfinished)
        simpa [isFinished, Splitter.isFinished] using hne
      · rw [hending, hr]
        rfl
    | error halted =>
      rw [scan_none_error hr]
      intro later
      rw [hending, hr]
      rfl
  · simp only [digest, hsettle, Option.isSome_some, if_true]
    refine ⟨⟨rfl, hs.open', hs.asks, ?_, hs.unfinished⟩, fun later => ?_⟩
    · intro other hother
      cases hother
      exact hlt
    · rw [ending, hsplit]
      rfl

theorem digest_waiting (hs : s.Waiting) : s.digest d none = .ok s := by
  obtain ⟨splitter, chunkSize, unread, exhausted, mark, reserved, widest⟩ := s
  obtain rfl : unread = [] := hs.unread
  cases mark with
  | none => rfl
  | some matched =>
    have hlt : matched < byteOrderMark.length := hs.mark matched rfl
    simp [digest, settleMark, hlt]

theorem toSplit_nil (hs : s.Waiting) : s.toSplit [] = byteOrderMark.take (s.mark.getD 0) := by
  cases hm : s.mark with
  | none => simp [toSplit, hm]
  | some matched =>
    have hlt := hs.mark matched hm
    have hwanted : byteOrderMark.drop matched ≠ [] := by
      rw [ne_eq, List.drop_eq_nil_iff]
      omega
    rw [toSplit_of_matched hm, withoutMark_of_not_prefix (by simpa using hwanted)]
    simp

theorem conclude_waiting (hs : s.Waiting) :
    match ({ s with exhausted := true } : Session).conclude d none with
    | .ok next => s.ending d [] = .ok next.splitter
    | .error halted => s.ending d [] = .error ⟨halted.fault, halted.left.splitter⟩ := by
  rw [ending, toSplit_nil hs]
  simp only [conclude, releaseMark, digest, settleMark, makeRoom, hs.unread, List.append_nil,
    Option.isSome_none, Bool.false_eq_true, if_false]
  cases hr : s.splitter.readAll d (byteOrderMark.take (s.mark.getD 0)) with
  | error halted =>
    rw [scan_none_error hr]
    rfl
  | ok t =>
    rw [scan_none_ok hr]
    simp only [ok_bind, Splitter.reached, Bool.false_eq_true, if_false]
    cases hf : t.finish d with
    | ok u => rfl
    | error halted => rfl

theorem ending_fault {halted : Halted Splitter} {bytes : List UInt8}
    (h : s.ending d bytes = .error halted) : halted.fault.isContentFault = true := by
  rcases bind_eq_error_iff.1 h with h | ⟨t, -, h⟩
  · exact Splitter.readAll_fault h
  · exact Splitter.finish_fault h

end Session

def Progress.outcome (p : Progress) : Option ReadFault × Splitter := (p.fault, p.session.splitter)

def outcomeOf : Except (Halted Splitter) Splitter → Option ReadFault × Splitter
  | .ok s => (none, s)
  | .error halted => (some halted.fault, halted.left)

namespace Session

variable {d : Dialect} {s : Session}

theorem not_settled (hs : s.Waiting) : s.isSettled none = false := by
  simp [isSettled, hs.unfinished, Splitter.reached]

theorem progress_outcome (hs : s.Waiting) (feed : Feed) :
    let p := progress feed (({ s with exhausted := true } : Session).conclude d none)
    (∀ text, p.fault ≠ some (.readFailed text)) ∧ p.outcome = outcomeOf (s.ending d []) := by
  have hc := conclude_waiting (d := d) hs
  cases h : ({ s with exhausted := true } : Session).conclude d none with
  | ok next =>
    rw [h] at hc
    exact ⟨by simp [progress], by rw [hc]; rfl⟩
  | error halted =>
    rw [h] at hc
    exact ⟨fun text => by simpa [progress] using ReadFault.ne_readFailed (ending_fault hc) text, by rw [hc]; rfl⟩

/-- Splitting piece after piece stops at a failed read, with the ending it had before, or comes to
that ending. -/
theorem pull_waiting (feed : Feed) (hs : s.Waiting) :
    let p := s.pull d none feed
    (∃ text, p.fault = some (.readFailed text) ∧ p.session.Waiting ∧
      p.session.ending d p.feed.content = s.ending d feed.content ∧
      p.feed.failures + 1 = feed.failures) ∨
    ((∀ text, p.fault ≠ some (.readFailed text)) ∧
      p.outcome = outcomeOf (s.ending d feed.content)) := by
  induction hw : feed.weight using Nat.strongRecOn generalizing feed s with
  | _ weight ih =>
    rw [pull, if_neg (by simp [not_settled hs]), if_neg (by simp [hs.open'])]
    split
    next text hread =>
      obtain ⟨hcontent, hfailures⟩ := Feed.read_failure hread
      exact .inl ⟨text, rfl, hs, by rw [hcontent], hfailures⟩
    next hread =>
      rw [Feed.content_of_read_end hs.asks (.inl hread)]
      exact .inr (progress_outcome hs _)
    next hread =>
      rw [Feed.content_of_read_end hs.asks (.inr hread)]
      exact .inr (progress_outcome hs _)
    next byte piece hread =>
      obtain ⟨hcontent, hfailures⟩ := Feed.read_piece hread
      have hdigest := digest_piece (d := d) (byte :: piece) hs
      rw [hcontent, ← hfailures]
      split
      next next' hok =>
        rw [hok] at hdigest
        rw [hdigest.2]
        exact ih _ (hw ▸ Feed.weight_read_lt hread (List.cons_ne_nil byte piece)) _ hdigest.1 rfl
      next halted herror =>
        rw [herror] at hdigest
        rw [hdigest]
        exact .inr ⟨fun text => by simpa using ReadFault.ne_readFailed (ending_fault (hdigest [])) text, rfl⟩

/-- Splits the whole input, and goes on after a failed read, at most `retries` times. -/
def tokenizeRetrying (d : Dialect) : Nat → Feed → Session → Progress
  | 0, feed, s => s.tokenizeAll d feed
  | retries + 1, feed, s =>
    let p := s.tokenizeAll d feed
    match p.fault with
    | some (.readFailed _) => tokenizeRetrying d retries p.feed p.session
    | _ => p

theorem tokenizeAll_waiting (feed : Feed) (hs : s.Waiting) :
    s.tokenizeAll d feed = s.pull d none feed := by
  simp [tokenizeAll, tokenize, not_settled hs, digest_waiting hs]

theorem tokenizeRetrying_waiting (retries : Nat) (feed : Feed) (hs : s.Waiting)
    (hr : feed.failures ≤ retries) :
    (s.tokenizeRetrying d retries feed).outcome = outcomeOf (s.ending d feed.content) := by
  induction retries generalizing feed s with
  | zero =>
    rw [tokenizeRetrying, tokenizeAll_waiting feed hs]
    rcases pull_waiting (d := d) feed hs with ⟨text, -, -, -, hfailures⟩ | ⟨-, houtcome⟩
    · omega
    · exact houtcome
  | succ retries ih =>
    rw [tokenizeRetrying, tokenizeAll_waiting feed hs]
    rcases pull_waiting (d := d) feed hs with
        ⟨text, hfault, hw, hending, hfailures⟩ | ⟨hfault, houtcome⟩
    · simp only [hfault]
      rw [ih _ hw (by omega), hending]
    · split
      next text htext => exact absurd htext (hfault text)
      next => exact houtcome

theorem tokenizeAll_start (d : Dialect) (headerLines : Nat) (anyWidth : Bool) (chunkSize : Nat)
    {feed : Feed} (hfailures : feed.failures = 0) :
    ((start headerLines anyWidth chunkSize).tokenizeAll d feed).outcome =
      outcomeOf (Splitter.readAll d (withoutMark feed.content)
        { headerLines := headerLines, anyWidth := anyWidth } >>= Splitter.finish d) := by
  have hwhole := tokenizeRetrying_waiting (d := d) 0 feed
    (waiting_start headerLines anyWidth chunkSize) (Nat.le_of_eq hfailures)
  rw [ending, toSplit_of_matched rfl, List.take_zero, List.nil_append] at hwhole
  exact hwhole

/-- The fault and the splitter at the end depend only on the dialect, the kind of session and the bytes
of the feed: they are those of the whole input in one piece. Reads that fail in between change
nothing if the session is asked once more for each. -/
theorem tokenizeRetrying_outcome (d : Dialect) (headerLines : Nat) (anyWidth : Bool)
    (chunkSize wholeSize more : Nat) (feed : Feed) :
    ((Session.start headerLines anyWidth chunkSize).tokenizeRetrying d
        (feed.failures + more) feed).outcome =
      ((Session.start headerLines anyWidth wholeSize).tokenizeAll d
        (.script [.bytes feed.content])).outcome := by
  have hcontent : (Feed.script [.bytes feed.content]).content = feed.content := by
    cases hc : feed.content with
    | nil => rfl
    | cons byte rest => simp [Feed.content, Delivery.content]
  have hfailures : (Feed.script [.bytes feed.content]).failures = 0 := by
    cases hc : feed.content with
    | nil => rfl
    | cons byte rest => rfl
  have hwhole := tokenizeRetrying_waiting (d := d) 0 (.script [.bytes feed.content])
    (waiting_start headerLines anyWidth wholeSize) (Nat.le_of_eq hfailures)
  rw [tokenizeRetrying_waiting _ feed (waiting_start headerLines anyWidth chunkSize)
    (Nat.le_add_right _ _)]
  rw [hcontent] at hwhole
  exact hwhole.symm

end Session

end TypedTable.Csv
