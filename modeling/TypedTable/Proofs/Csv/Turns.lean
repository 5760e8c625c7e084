import TypedTable.Proofs.Csv.Visits

/-!
# Every request returns

A session works in turns. Each one splits what is unread, asks the source for a piece, or ends the
input, where a mark that is not complete becomes data. A turn that does not end the request brings
it nearer to its end, whatever it finds: the leftover of an earlier request takes a turn, each piece
takes another, and the end of the input two. With a feed the turns come to what `Session.tokenize`
returns.
-/

set_option autoImplicit false

namespace TypedTable.Csv

structure Stop (σ : Type) where
  session : Session
  source : σ
  fault : Option ReadFault

def Stop.progress (stop : Stop Feed) : Progress := ⟨stop.session, stop.source, stop.fault⟩

inductive Turn (σ : Type) where
  | last (stop : Stop σ)
  | again (session : Session) (source : σ)

def Turn.session {σ : Type} : Turn σ → Session
  | .last stop => stop.session
  | .again next _ => next

def Turn.result (d : Dialect) (limit : Option Nat) : Turn Feed → Progress
  | .last stop => stop.progress
  | .again next later => next.tokenize d limit later

namespace Session

section Turns

variable {σ : Type}

def digestTurn (d : Dialect) (limit : Option Nat) (source : σ) (s : Session) : Turn σ :=
  match s.digest d limit with
  | .ok next => .again next source
  | .error halted => .last ⟨halted.left, source, some halted.fault⟩

def endTurn (d : Dialect) (limit : Option Nat) (source : σ) (s : Session) : Turn σ :=
  let s := s.releaseMark
  if s.unread = [] then
    match s.splitter.finish d with
    | .ok splitter => .last ⟨{ s with splitter := splitter }, source, none⟩
    | .error halted => .last ⟨{ s with splitter := halted.left }, source, some halted.fault⟩
  else
    s.digestTurn d limit source

/-- One turn with a source of any kind, which is read by `read`. -/
def turn (d : Dialect) (limit : Option Nat) (read : Nat → σ → Delivery × σ) (source : σ)
    (s : Session) : Turn σ :=
  if s.isSettled limit then .last ⟨s, source, none⟩
  else if s.unread ≠ [] then s.digestTurn d limit source
  else if s.exhausted then s.endTurn d limit source
  else
    match (read s.chunkSize source).1 with
    | .failure text => .last ⟨s, (read s.chunkSize source).2, some (.readFailed text)⟩
    | .endOfInput | .bytes [] =>
      { s with exhausted := true }.endTurn d limit (read s.chunkSize source).2
    | .bytes (byte :: piece) =>
      { s with unread := byte :: piece }.digestTurn d limit (read s.chunkSize source).2

inductive Returns (d : Dialect) (limit : Option Nat) (read : Nat → σ → Delivery × σ) :
    Nat → Session → σ → Stop σ → Prop
  | last {s : Session} {source : σ} {stop : Stop σ}
    (h : s.turn d limit read source = .last stop) : Returns d limit read 1 s source stop
  | again {n : Nat} {s next : Session} {source later : σ} {stop : Stop σ}
    (h : s.turn d limit read source = .again next later)
    (rest : Returns d limit read n next later stop) : Returns d limit read (n + 1) s source stop

end Turns

end Session

inductive EndsAfter {σ : Type} (read : σ → Delivery × σ) : Nat → σ → Prop
  | endOfInput {source : σ} (h : (read source).1 = .endOfInput) : EndsAfter read 0 source
  | empty {source : σ} (h : (read source).1 = .bytes []) : EndsAfter read 0 source
  | failure {source : σ} {text : String} (h : (read source).1 = .failure text) :
    EndsAfter read 0 source
  | piece {n : Nat} {source : σ} {byte : UInt8} {piece : List UInt8}
    (h : (read source).1 = .bytes (byte :: piece)) (later : EndsAfter read n (read source).2) :
    EndsAfter read (n + 1) source

theorem Feed.endsAfter (most : Nat) (feed : Feed) :
    ∃ n ≤ feed.weight, EndsAfter (Feed.read most) n feed := by
  induction hw : feed.weight using Nat.strongRecOn generalizing feed with
  | _ weight ih =>
    match hread : (feed.read most).1 with
    | .endOfInput => exact ⟨0, Nat.zero_le _, .endOfInput hread⟩
    | .bytes [] => exact ⟨0, Nat.zero_le _, .empty hread⟩
    | .failure text => exact ⟨0, Nat.zero_le _, .failure hread⟩
    | .bytes (byte :: piece) =>
      have hless := hw ▸ Feed.weight_read_lt hread (List.cons_ne_nil byte piece)
      obtain ⟨n, hn, hlater⟩ := ih _ hless _ rfl
      exact ⟨n + 1, Nat.lt_of_le_of_lt hn hless, .piece hread hlater⟩

namespace Session

variable {d : Dialect} {limit : Option Nat} {s next : Session} {feed : Feed}

/-! ## Splitting what is unread -/

def MarkOpen (s : Session) : Prop :=
  ∀ matched, s.mark = some matched → matched < byteOrderMark.length

theorem markOpen_of_none (h : s.mark = none) : s.MarkOpen := by
  intro matched hm
  rw [h] at hm
  cases hm

def Digested (limit : Option Nat) (s : Session) : Prop :=
  s.unread = [] ∨ s.splitter.reached limit = true

structure Digests (limit : Option Nat) (s next : Session) : Prop where
  digested : next.Digested limit
  markOpen : next.MarkOpen
  exhausted : next.exhausted = s.exhausted
  chunkSize : next.chunkSize = s.chunkSize
  noMark : s.mark = none → next.mark = none

theorem digest_digests (d : Dialect) (limit : Option Nat) (s : Session) :
    Yields (s.Digests limit) (·.left.mark = none) (s.digest d limit) := by
  have hsame : s.settleMark.exhausted = s.exhausted ∧ s.settleMark.chunkSize = s.chunkSize ∧
      (s.mark = none → s.settleMark.mark = none) := by
    unfold settleMark
    split
    · exact ⟨rfl, rfl, id⟩
    next matched hm =>
      dsimp only
      split <;> exact ⟨rfl, rfl, by simp [hm]⟩
  obtain ⟨hexhausted, hchunk, hnone⟩ := hsame
  rw [digest_eq]
  split_ifs with hopen
  · obtain ⟨matched, hm⟩ := Option.isSome_iff_exists.1 hopen
    exact ⟨.inl (settleMark_open hm).1, fun m h => (settleMark_open h).2, hexhausted, hchunk, hnone⟩
  · rw [Option.not_isSome_iff_eq_none] at hopen
    have hscan := Splitter.scan_resume d limit s.settleMark.unread s.splitter
    cases hs : s.splitter.scan d limit s.settleMark.unread with
    | error halted => exact hopen
    | ok result =>
      rw [hs] at hscan
      exact ⟨hscan.2, markOpen_of_none hopen, hexhausted, hchunk, fun _ => hopen⟩

/-! ## Each turn brings the end nearer -/

section Ahead

variable {σ : Type} {read : Nat → σ → Delivery × σ} {source : σ} {n : Nat}

inductive Ahead (limit : Option Nat) (read : Nat → σ → Delivery × σ) : Nat → Session → σ → Prop
  | ended {s : Session} {source : σ} (hd : s.Digested limit) (hx : s.exhausted = true)
    (hm : s.mark = none) : Ahead limit read 0 s source
  | reading {n : Nat} {s : Session} {source : σ} (hd : s.Digested limit)
    (he : EndsAfter (read s.chunkSize) n source) : Ahead limit read (n + 1) s source
  | leftover {n : Nat} {s : Session} {source : σ}
    (he : EndsAfter (read s.chunkSize) n source) : Ahead limit read (n + 2) s source

/-- The turn is the last one, or leaves less than `n` after the next one. -/
def Nears (limit : Option Nat) (read : Nat → σ → Delivery × σ) (n : Nat) : Turn σ → Prop
  | .last _ => True
  | .again next later => ∃ m < n, Ahead limit read m next later

theorem digestTurn_nears {m : Nat} (hm : m < n)
    (h : ∀ next, s.Digests limit next → Ahead limit read m next source) :
    Nears limit read n (s.digestTurn d limit source) := by
  have hdigest := digest_digests d limit s
  unfold digestTurn
  cases hs : s.digest d limit with
  | error halted => trivial
  | ok next =>
    rw [hs] at hdigest
    exact ⟨m, hm, h next hdigest⟩

theorem endTurn_nears (hx : s.exhausted = true) (hn : s.mark = none ∧ s.unread = [] ∨ 0 < n) :
    Nears limit read n (s.endTurn d limit source) := by
  unfold endTurn
  dsimp only
  split_ifs with hunread
  · cases s.releaseMark.splitter.finish d <;> trivial
  · have hpos : 0 < n := by
      refine hn.resolve_left fun ⟨hm, hu⟩ => hunread ?_
      simp [releaseMark, hm, hu]
    exact digestTurn_nears hpos fun next h =>
      .ended h.digested (h.exhausted.trans hx) (h.noMark rfl)

theorem Digested.unread (hd : s.Digested limit) (hs : ¬s.isSettled limit = true) :
    s.unread = [] := by
  refine hd.resolve_right fun hreached => hs ?_
  rw [isSettled, hreached, Bool.or_true]

theorem reading_nears (hd : s.Digested limit) (he : EndsAfter (read s.chunkSize) n source) :
    Nears limit read (n + 1) (s.turn d limit read source) := by
  have hlast (t : Session) (hx : t.exhausted = true) (later : σ) :
      Nears limit read (n + 1) (t.endTurn d limit later) :=
    endTurn_nears hx (.inr (Nat.succ_pos n))
  unfold turn
  split_ifs with hsettled hunread hx
  · trivial
  · exact absurd (hd.unread hsettled) hunread
  · exact hlast s hx source
  cases he with
  | endOfInput h | empty h =>
    simp only [h]
    exact hlast _ rfl _
  | failure h =>
    simp only [h]
    trivial
  | piece h later =>
    simp only [h]
    refine digestTurn_nears (Nat.lt_succ_self _) fun next hnext => .reading hnext.digested ?_
    rwa [hnext.chunkSize]

theorem Nears.mono {turn : Turn σ} {m : Nat} (h : Nears limit read m turn)
    (hmn : m ≤ n) : Nears limit read n turn := by
  cases turn with
  | last stop => trivial
  | again next later =>
    obtain ⟨k, hk, hahead⟩ := h
    exact ⟨k, hk.trans_le hmn, hahead⟩

theorem Ahead.nears (h : Ahead limit read n s source) :
    Nears limit read n (s.turn d limit read source) := by
  cases h with
  | ended hd hx hm =>
    unfold turn
    split_ifs with hsettled hunread
    · trivial
    · exact absurd (hd.unread hsettled) hunread
    · exact endTurn_nears hx (.inl ⟨hm, not_not.1 hunread⟩)
  | reading hd he => exact reading_nears hd he
  | leftover he =>
    by_cases hunread : s.unread = []
    · exact (reading_nears (.inl hunread) he).mono (Nat.le_succ _)
    unfold turn
    split_ifs
    · trivial
    refine digestTurn_nears (Nat.lt_succ_self _) fun next hnext => .reading hnext.digested ?_
    rwa [hnext.chunkSize]

theorem Ahead.returns (d : Dialect) (h : Ahead limit read n s source) :
    ∃ k ≤ n + 1, ∃ stop, Returns d limit read k s source stop := by
  induction n using Nat.strongRecOn generalizing s source with
  | _ n ih =>
    have hnears := h.nears (d := d)
    match hturn : s.turn d limit read source with
    | .last stop => exact ⟨1, Nat.le_add_left 1 n, stop, .last hturn⟩
    | .again next later =>
      rw [hturn] at hnears
      obtain ⟨m, hm, hnext⟩ := hnears
      obtain ⟨k, hk, stop, hrest⟩ := ih m hm hnext
      exact ⟨k + 1, Nat.succ_le_succ (hk.trans hm), stop, .again hturn hrest⟩

end Ahead

/-! ## The turns of a feed -/

theorem releaseMark_of_none (hm : s.mark = none) : s.releaseMark = s := by
  obtain ⟨splitter, chunkSize, unread, exhausted, mark⟩ := s
  obtain rfl : mark = none := hm
  rfl

theorem settleMark_of_unread_nil (hu : s.unread = []) (hm : s.MarkOpen) : s.settleMark = s := by
  cases h : s.mark with
  | none => simp only [settleMark, h]
  | some matched => exact settleMark_of_drained hu h (hm matched h)

theorem digest_of_unread_nil (hu : s.unread = []) (hm : s.MarkOpen) :
    s.digest d limit = .ok s := by
  unfold digest
  dsimp only
  rw [settleMark_of_unread_nil hu hm]
  split_ifs
  · rfl
  · obtain ⟨splitter, chunkSize, unread, exhausted, mark⟩ := s
    obtain rfl : unread = [] := hu
    rfl

theorem tokenize_of_digests (hs : s.Digests limit next) (feed : Feed) :
    next.tokenize d limit feed = next.pull d limit feed := by
  unfold tokenize
  split_ifs with hsettled
  · rw [pull, if_pos hsettled]
  · rw [digest_of_unread_nil (hs.digested.unread hsettled) hs.markOpen]

theorem digestTurn_result (d : Dialect) (limit : Option Nat) (feed : Feed) (s : Session) :
    (s.digestTurn d limit feed).result d limit = match s.digest d limit with
      | .ok next => next.pull d limit feed
      | .error halted => ⟨halted.left, feed, some halted.fault⟩ := by
  have hdigest := digest_digests d limit s
  unfold digestTurn
  cases hs : s.digest d limit with
  | error halted => rfl
  | ok next =>
    rw [hs] at hdigest
    exact tokenize_of_digests hdigest feed

theorem conclude_of_drained (hu : s.unread = []) (hm : s.mark = none) :
    s.conclude d limit = s.endInput d limit := by
  rw [conclude_eq, releaseMark_of_none hm, digest_of_unread_nil hu (markOpen_of_none hm), ok_bind]

/-- A session at the end of its source is concluded by what is left of a mark, and then for good. -/
theorem endTurn_result (feed : Feed) (hs : s.isSettled limit = false) (hx : s.exhausted = true) :
    (s.endTurn d limit feed).result d limit = progress feed (s.conclude d limit) := by
  have hunsettled : s.isFinished = false ∧ s.splitter.reached limit = false := by
    simpa [isSettled] using hs
  have hopen : s.releaseMark.MarkOpen := markOpen_of_none rfl
  unfold endTurn
  dsimp only
  rw [conclude_eq]
  split_ifs with hunread
  · have hreached : s.releaseMark.splitter.reached limit = false := hunsettled.2
    rw [digest_of_unread_nil hunread hopen, ok_bind, endInput, if_neg (by simp [hreached])]
    cases s.releaseMark.splitter.finish d <;> rfl
  · have hdigest := digest_digests d limit s.releaseMark
    have hunfinished := digest_unfinished (d := d) (s := s.releaseMark) limit hunsettled.1
    rw [digestTurn_result]
    cases hd : s.releaseMark.digest d limit with
    | error halted => rfl
    | ok next =>
      rw [hd] at hdigest hunfinished
      have hfinished : next.isFinished = false := hunfinished
      show next.pull d limit feed = progress feed (next.endInput d limit)
      cases hr : next.splitter.reached limit with
      | true =>
        rw [pull, if_pos (by simp [isSettled, hr]), endInput, if_pos hr]
        rfl
      | false =>
        have hgoes : next.isSettled limit = false := by simp [isSettled, hfinished, hr]
        rw [pull_of_unsettled feed hgoes, if_pos (hdigest.exhausted.trans hx),
          conclude_of_drained (hdigest.digested.unread (by simp [hgoes])) (hdigest.noMark rfl)]

theorem turn_result (feed : Feed) (hm : s.MarkOpen) :
    (s.turn d limit Feed.read feed).result d limit = s.tokenize d limit feed := by
  unfold tokenize turn
  split_ifs with hsettled hunread hx
  · rfl
  · exact digestTurn_result d limit feed s
  all_goals
    rw [not_not] at hunread
    rw [Bool.not_eq_true] at hsettled
    rw [digest_of_unread_nil hunread hm]
    dsimp only
    rw [pull_of_unsettled feed hsettled]
  · rw [if_pos hx]
    exact endTurn_result feed hsettled hx
  rw [if_neg hx]
  -- with nothing unread the turn is a read
  have hlast (later : Feed) := endTurn_result (d := d) (s := { s with exhausted := true }) later
    hsettled rfl
  match (feed.read s.chunkSize).1 with
  | .failure text => rfl
  | .endOfInput | .bytes [] => exact hlast _
  | .bytes (byte :: piece) => exact digestTurn_result d limit _ _

/-! ## Every session that requests lead to -/

section Marks

variable {σ : Type} {read : Nat → σ → Delivery × σ} {source : σ}

theorem digestTurn_markOpen (d : Dialect) (limit : Option Nat) (source : σ) (s : Session) :
    (s.digestTurn d limit source).session.MarkOpen := by
  have hdigest := digest_digests d limit s
  unfold digestTurn
  cases hs : s.digest d limit with
  | error halted =>
    rw [hs] at hdigest
    exact markOpen_of_none hdigest
  | ok next =>
    rw [hs] at hdigest
    exact hdigest.markOpen

theorem endTurn_markOpen (d : Dialect) (limit : Option Nat) (source : σ) (s : Session) :
    (s.endTurn d limit source).session.MarkOpen := by
  unfold endTurn
  dsimp only
  split_ifs
  · cases s.releaseMark.splitter.finish d <;> exact markOpen_of_none rfl
  · exact digestTurn_markOpen d limit source _

theorem turn_markOpen {turn : Turn σ} (hturn : s.turn d limit read source = turn)
    (hm : s.MarkOpen) : turn.session.MarkOpen := by
  subst hturn
  unfold Session.turn
  split_ifs
  · exact hm
  · exact digestTurn_markOpen d limit source s
  · exact endTurn_markOpen d limit source s
  split
  · exact hm
  · exact endTurn_markOpen d limit _ _
  · exact endTurn_markOpen d limit _ _
  · exact digestTurn_markOpen d limit _ _

theorem Returns.markOpen {k : Nat} {stop : Stop σ} (h : Returns d limit read k s source stop)
    (hm : s.MarkOpen) : stop.session.MarkOpen := by
  induction h with
  | last h => exact turn_markOpen h hm
  | again h rest ih => exact ih (turn_markOpen h hm)

end Marks

theorem Returns.tokenize_eq {k : Nat} {stop : Stop Feed}
    (h : Returns d limit Feed.read k s feed stop) (hm : s.MarkOpen) :
    s.tokenize d limit feed = stop.progress := by
  induction h with
  | last h => rw [← turn_result _ hm, h, Turn.result]
  | again h rest ih => rw [← turn_result _ hm, h, Turn.result, ih (turn_markOpen h hm)]

theorem tokenize_returns (d : Dialect) (limit : Option Nat) (feed : Feed) (hm : s.MarkOpen) :
    ∃ k ≤ feed.weight + 3, ∃ stop,
      Returns d limit Feed.read k s feed stop ∧ s.tokenize d limit feed = stop.progress := by
  obtain ⟨n, hn, hends⟩ := feed.endsAfter s.chunkSize
  have hahead : Ahead limit Feed.read (n + 2) s feed := .leftover hends
  obtain ⟨k, hk, stop, hreturns⟩ := hahead.returns d
  exact ⟨k, hk.trans (Nat.add_le_add_right hn 3), stop, hreturns, hreturns.tokenize_eq hm⟩

theorem tokenize_markOpen (d : Dialect) (limit : Option Nat) (feed : Feed) (hm : s.MarkOpen) :
    (s.tokenize d limit feed).session.MarkOpen := by
  obtain ⟨k, -, stop, hreturns, heq⟩ := tokenize_returns d limit feed hm
  rw [heq]
  exact hreturns.markOpen hm

theorem tokenizeLines_eq (d : Dialect) (count : Nat) (feed : Feed) (s : Session) :
    s.tokenizeLines d count feed =
      s.tokenize d (some ((s.splitter.lines.size + count) % wordLimit)) feed := by
  unfold tokenizeLines
  split_ifs with hnone
  · subst hnone
    rw [tokenize, if_pos (by simp [isSettled, Splitter.reached, Nat.mod_le])]
  · rfl

theorem Reachable.markOpen (h : s.Reachable d) : s.MarkOpen := by
  induction h with
  | start headerLines anyWidth chunkSize =>
    intro matched hm
    cases hm
    decide
  | @perform s request feed _ ih =>
    cases request with
    | all => exact tokenize_markOpen d none feed ih
    | lines count =>
      show (s.tokenizeLines d count feed).session.MarkOpen
      rw [tokenizeLines_eq]
      exact tokenize_markOpen d _ feed ih
    | drop count => exact ih
    | trim =>
      obtain ⟨splitter, reserved, widest, htrim, -⟩ := s.exists_trim_eq
      show s.trim.MarkOpen
      rw [htrim]
      exact ih
  | deliver bytes _ ih => exact ih

end Session

/-! ## Progress -/

/-- No byte is passed on more than twice, so that a scan ends after three visits for each byte. A
request ends three turns after the pieces of its source, of whatever kind it is, and with a feed
this is what `Session.tokenizeAll` and `Session.tokenizeLines` return. -/
theorem every_byte_moves_on (d : Dialect) :
    (∀ (c : UInt8) (n : Nat) (s t : Splitter), Splitter.Passes d c n s t → n ≤ 2) ∧
    (∀ (limit : Option Nat) (bytes : List UInt8) (s : Splitter),
      ∃ n ≤ 3 * bytes.length, Splitter.Visits d limit n bytes s (s.scan d limit bytes)) ∧
    (∀ (σ : Type) (read : Nat → σ → Delivery × σ) (limit : Option Nat) (n : Nat) (s : Session)
      (source : σ), EndsAfter (read s.chunkSize) n source →
      ∃ k ≤ n + 3, ∃ stop, Session.Returns d limit read k s source stop) ∧
    ∀ (s : Session) (feed : Feed), s.Reachable d →
      (∃ k ≤ feed.weight + 3, ∃ stop, Session.Returns d none Feed.read k s feed stop ∧
        s.tokenizeAll d feed = stop.progress) ∧
      ∀ count, ∃ k ≤ feed.weight + 3, ∃ stop,
        Session.Returns d (some ((s.splitter.lines.size + count) % wordLimit)) Feed.read k s feed
            stop ∧
          s.tokenizeLines d count feed = stop.progress := by
  refine ⟨fun c n s t h => h.le_two, Splitter.visits_scan d, ?_, fun s feed hs => ⟨?_, ?_⟩⟩
  · intro σ read limit n s source hends
    exact (Session.Ahead.leftover hends).returns d
  · exact Session.tokenize_returns d none feed hs.markOpen
  · intro count
    rw [Session.tokenizeLines_eq]
    exact Session.tokenize_returns d _ feed hs.markOpen

/-- After a carriage return a letter is passed on twice. The input breaks off in the mark. -/
theorem every_byte_moves_on_in_mark :
    let d : Dialect := {}
    let feed : Feed := .script [.bytes [0xef], .bytes [0xbb]]
    let s := Session.start 0 false 1
    (∃ t, Splitter.Passes d 97 2 { state := .afterReturn } t ∧ 2 ≤ 2) ∧
      EndsAfter (Feed.read s.chunkSize) 2 feed ∧
      (∃ k ≤ 5, ∃ stop, Session.Returns d none Feed.read k s feed stop) ∧
      s.Reachable d ∧ (∃ k ≤ 5, ∃ stop, Session.Returns d none Feed.read k s feed stop ∧
        s.tokenizeAll d feed = stop.progress) := by
  intro d feed s
  obtain ⟨hpasses, -, hreturns, hfeeds⟩ := every_byte_moves_on d
  have hends : EndsAfter (Feed.read s.chunkSize) 2 feed :=
    .piece rfl (.piece rfl (.endOfInput rfl))
  have hreachable : s.Reachable d := .start 0 false 1
  have htwice : ∃ t, Splitter.Passes d 97 2 { state := .afterReturn } t :=
    ⟨_, .pass rfl (.pass rfl (.none _))⟩
  obtain ⟨t, ht⟩ := htwice
  exact ⟨⟨t, ht, hpasses 97 2 _ t ht⟩, hends, hreturns _ _ none 2 s feed hends, hreachable,
    (hfeeds s feed hreachable).1⟩

end TypedTable.Csv
