import TypedTable.Csv.Loading
import TypedTable.Proofs.Csv.Pieces
import TypedTable.Proofs.Table.Annotating
import TypedTable.Proofs.Table.Answers

/-!
# Loading keeps tables consistent

A load adds columns that belong to the table and labels them. Whatever is wrong with the input or
the settings, no load finds fault with the table itself.
-/

set_option autoImplicit false

namespace TypedTable.Csv

open Table (Consistent)

variable {heap : Heap} {table later : Table}

namespace Reading

theorem external_check (s : Settings) : Avoids (·.kind == .internal) s.check :=
  .mapError fun _ _ => rfl

/-- A split fails by a failed read or by the bytes that were read. -/
theorem split_fault {s : Settings} {feed : Feed} {fault : ReadFault}
    (he : split s feed = .error fault) :
    (∃ text, fault = .readFailed text) ∨ fault.isContentFault = true := by
  have hw : s.session.Waiting := Session.waiting_start _ _ _
  have hfault : (s.session.tokenizeAll s.dialect feed).fault = some fault := by
    unfold split at he
    dsimp only at he
    split at he
    next found hfound =>
      cases he
      exact hfound
    next => cases he
  rw [Session.tokenizeAll_waiting feed hw] at hfault
  rcases Session.pull_waiting (d := s.dialect) feed hw with ⟨text, hread, -⟩ | ⟨-, houtcome⟩
  · rw [hread] at hfault
    cases hfault
    exact .inl ⟨text, rfl⟩
  · cases hending : s.session.ending s.dialect feed.content with
    | ok splitter =>
      rw [hending] at houtcome
      have hnone := congrArg Prod.fst houtcome
      simp [Progress.outcome, outcomeOf, hfault] at hnone
    | error halted =>
      rw [hending] at houtcome
      have hsome := congrArg Prod.fst houtcome
      simp only [Progress.outcome, outcomeOf, hfault, Option.some.injEq] at hsome
      exact .inr (hsome ▸ Session.ending_fault hending)

theorem external_split (s : Settings) (feed : Feed) :
    Avoids (·.kind == .internal) (split s feed) := by
  intro fault he
  rcases split_fault he with ⟨text, rfl⟩ | hcontent
  · rfl
  · revert hcontent
    cases fault <;> simp [ReadFault.isContentFault, ReadFault.kind]

/-- A row fails only by a field that cannot be converted. -/
theorem avoids_row {bad : ReadFault → Bool} {d : Dialect} {type : FieldType} {warn : Bool}
    {s : Splitter} {sources : List Nat} {line : Line}
    (h : ∀ line index fault, bad (.field line index fault) = false) :
    Avoids bad (Matrix.row d type warn s sources line) := by
  refine .mapM fun source _ => ?_
  unfold Matrix.entry
  split
  · exact .ok _
  · split
    · exact .ok _
    · exact .error (h _ _ _)

theorem external_ofLines (d : Dialect) (type : FieldType) (plan : MatrixPlan) (s : Splitter) :
    Avoids (·.kind == .internal) (Matrix.ofLines d type plan s) := by
  unfold Matrix.ofLines
  dsimp only
  split
  · exact .ok _
  · refine Avoids.bind ?_ fun _ _ => Avoids.bind (.mapM fun line _ => avoids_row ?_) fun _ _ =>
      .ok _
    · unfold Matrix.checkWidth
      split
      · exact .error rfl
      · exact .ok ()
    · intro line index fault
      cases fault <;> simp [ReadFault.kind, FieldFault.kind]

theorem external_headingTexts (d : Dialect) (s : Splitter) (cols : Nat)
    (columns : Option (List Nat)) :
    Avoids (·.kind == .internal) (headingTexts d s cols columns) := by
  unfold headingTexts
  split
  · exact .ok _
  · dsimp only
    split
    · split
      · exact .error rfl
      · exact .ok _
    · split
      · exact .error rfl
      · exact .ok _

theorem external_read (type : FieldType) (s : Settings) (feed : Feed) :
    Avoids (·.kind == .internal) (read type s (.ok feed)) := by
  refine (external_check s).bind fun _ _ => (external_split s feed).bind fun splitter _ => ?_
  apply (external_ofLines s.dialect type s.plan splitter).bind
  intro matrix _
  dsimp only
  split
  · have hnames := external_headingTexts s.dialect splitter matrix.cols s.columns
    refine Avoids.bind (fun fault he => ?_) fun names _ => .ok _
    cases hn : headingTexts s.dialect splitter matrix.cols s.columns with
    | ok names =>
      rw [hn] at he
      cases he
    | error cause =>
      rw [hn] at he
      cases he
      exact hnames fault hn
  · exact .ok _

end Reading

namespace Loading

/-- A table takes over cells of its own whatever the heap. -/
theorem adopt_eq {type : ScalarType} (heap : Heap) (table : Table) (rows cols : Nat)
    (order : Order) (cells : Array type.Carrier) :
    adopt table rows cols order cells =
      ofTable (table.appendColumns heap rows cols order (.adopted cells)) := rfl

theorem adopt_consistent (h : table.Consistent heap) {type : ScalarType} {rows cols : Nat}
    {order : Order} {cells : Array type.Carrier}
    (hok : adopt table rows cols order cells = .ok later) : later.Consistent heap := by
  rw [adopt_eq heap] at hok
  exact h.appendColumns (mapError_eq_ok_iff.1 hok)

def groupColumns : Option Group → List TypedColumn → List Group
  | current, [] => current.toList
  | none, column :: later => groupColumns (some (.ofColumn column)) later
  | some group, column :: later =>
    match group.extend? column with
    | some wider => groupColumns (some wider) later
    | none => group :: groupColumns (some (.ofColumn column)) later

theorem commitGroups_eq (rows : Nat) (current : Option Group) (columns : List TypedColumn)
    (table : Table) :
    commitGroups rows current columns table =
      (groupColumns current columns).foldlM (adoptGroup rows) table := by
  induction columns generalizing current table with
  | nil =>
    cases current with
    | none => rfl
    | some group => exact (bind_pure _).symm
  | cons column later ih =>
    cases current with
    | none => exact ih (some (.ofColumn column)) table
    | some group =>
      rw [commitGroups, groupColumns]
      cases group.extend? column with
      | some wider => exact ih (some wider) table
      | none =>
        dsimp only
        rw [List.foldlM_cons]
        exact bind_congr fun table => ih (some (.ofColumn column)) table

section Keeps

variable {P : Table → Prop}

theorem labelColumns_keeps (hl : ∀ (table later : Table) (name : String) (col : Nat), P table →
      table.label name col = .ok later → P later)
    (h : P table) {seen names : List String} {col : Nat}
    (hok : labelColumns seen names col table = .ok later) : P later := by
  induction names generalizing seen col table with
  | nil =>
    cases hok
    exact h
  | cons name names ih =>
    rw [labelColumns] at hok
    split at hok
    · exact ih h hok
    · obtain ⟨labeled, hlabeled, hok⟩ := bind_eq_ok_iff.1 hok
      exact ih (hl table labeled name col h (mapError_eq_ok_iff.1 hlabeled)) hok

section Adopts

variable (ha : ∀ (table later : Table) (type : ScalarType) (rows cols : Nat) (order : Order)
  (cells : Array type.Carrier), P table → adopt table rows cols order cells = .ok later → P later)

include ha

theorem loadTyped_keeps (h : P table) {type : ScalarType} {s : Settings} {feed : Feed}
    {result : Table × Status × Option (List String)}
    (hok : loadTyped type table s feed = .ok result) : P result.1 := by
  obtain ⟨reading, -, hok⟩ := bind_eq_ok_iff.1 hok
  split at hok
  · cases hok
    exact h
  · obtain ⟨filled, hfilled, hok⟩ := bind_eq_ok_iff.1 hok
    cases hok
    exact ha table filled type _ _ _ _ h hfilled

theorem loadDetected_keeps (h : P table) {s : Settings} {feed : Feed}
    {result : Table × Status × Option (List String)}
    (hok : loadDetected table s feed = .ok result) : P result.1 := by
  obtain ⟨reading, -, hok⟩ := bind_eq_ok_iff.1 hok
  split at hok
  · cases hok
    exact h
  · obtain ⟨filled, hfilled, hok⟩ := bind_eq_ok_iff.1 hok
    cases hok
    rw [commitGroups_eq] at hfilled
    exact foldlM_keeps (fun table group later hp hgroup =>
      ha table later group.type _ _ _ _ hp hgroup) h hfilled

/-- A property of tables that new cells and labels keep is kept by a load. -/
theorem fill_keeps (hl : ∀ (table later : Table) (name : String) (col : Nat), P table →
      table.label name col = .ok later → P later)
    (h : P table) {s : Settings} {feed : Feed} {result : Table × Status}
    (hok : fill table s feed = .ok result) : P result.1 := by
  unfold fill at hok
  dsimp only at hok
  split at hok
  · obtain ⟨read, hread, hok⟩ := bind_eq_ok_iff.1 hok
    obtain ⟨labeled, hlabeled, hok⟩ := bind_eq_ok_iff.1 hok
    cases hok
    exact labelColumns_keeps hl (loadTyped_keeps ha h hread) hlabeled
  · obtain ⟨read, hread, hok⟩ := bind_eq_ok_iff.1 hok
    obtain ⟨labeled, hlabeled, hok⟩ := bind_eq_ok_iff.1 hok
    cases hok
    exact labelColumns_keeps hl (loadDetected_keeps ha h hread) hlabeled

end Adopts

end Keeps

theorem labelColumns_consistent (h : table.Consistent heap) {seen names : List String} {col : Nat}
    (hok : labelColumns seen names col table = .ok later) : later.Consistent heap :=
  labelColumns_keeps (fun _ _ _ _ hc hlabel => hc.label hlabel) h hok

theorem fill_consistent (h : table.Consistent heap) {s : Settings} {feed : Feed}
    {result : Table × Status} (hok : fill table s feed = .ok result) :
    result.1.Consistent heap :=
  fill_keeps (fun _ _ _ _ _ _ _ hc hadopt => adopt_consistent hc hadopt)
    (fun _ _ _ _ hc hlabel => hc.label hlabel) h hok

theorem external_adopt {type : ScalarType} (table : Table) (rows cols : Nat) (order : Order)
    (cells : Array type.Carrier) :
    Avoids (·.kind == .internal) (adopt table rows cols order cells) :=
  .mapError (Table.warranted_appendColumns {} table rows cols order _)

theorem external_labelColumns (seen names : List String) (col : Nat) (table : Table) :
    Avoids (·.kind == .internal) (labelColumns seen names col table) := by
  induction names generalizing seen col table with
  | nil => exact .ok table
  | cons name names ih =>
    rw [labelColumns]
    split
    · exact ih seen (col + 1) table
    · exact Avoids.bind (.mapError (table.warranted_label name col)) fun labeled _ =>
        ih (name :: seen) (col + 1) labeled

theorem external_loadTyped (type : ScalarType) (table : Table) (s : Settings) (feed : Feed) :
    Avoids (·.kind == .internal) (loadTyped type table s feed) := by
  apply (Reading.external_read (.scalar type) s feed).bind
  intro reading _
  split
  · exact .ok _
  · exact (external_adopt table reading.rows reading.cols s.order _).bind fun _ _ => .ok _

theorem external_loadDetected (table : Table) (s : Settings) (feed : Feed) :
    Avoids (·.kind == .internal) (loadDetected table s feed) := by
  apply (Reading.external_read (.scalar .str) _ feed).bind
  intro reading _
  split
  · exact .ok _
  · dsimp only
    rw [commitGroups_eq]
    refine Avoids.bind (.foldlM (fun table group _ => ?_) table) fun _ _ => .ok _
    exact external_adopt table reading.rows group.width .columnMajor _

theorem external_fill (table : Table) (s : Settings) (feed : Feed) :
    Avoids (·.kind == .internal) (fill table s feed) := by
  unfold fill
  dsimp only
  split
  · exact (external_loadTyped _ table s feed).bind fun read _ =>
      (external_labelColumns [] _ 0 read.1).bind fun _ _ => .ok _
  · exact (external_loadDetected table s feed).bind fun read _ =>
      (external_labelColumns [] _ 0 read.1).bind fun _ _ => .ok _

end Loading

theorem load_consistent (h : table.Consistent heap) {s : Settings}
    {input : Except ReadFault Feed} {result : Table × Status}
    (hok : load table s input = .ok result) : result.1.Consistent heap := by
  unfold load at hok
  split at hok
  · cases hok
  · split at hok
    · cases hok
    · exact Loading.fill_consistent h (mapError_eq_ok_iff.1 hok)

/-- A load that is refused leaves the table as it was or empty. -/
theorem load_refused {s : Settings} {input : Except ReadFault Feed} {halted : Halted Table}
    (he : load table s input = .error halted) :
    halted.left = table ∨ halted.left = Table.empty := by
  unfold load at he
  split at he
  · cases he
    exact .inl rfl
  · split at he
    · cases he
      exact .inl rfl
    · obtain ⟨fault, -, rfl⟩ := mapError_eq_error_iff.1 he
      exact .inr rfl

theorem load_refused_consistent (h : table.Consistent heap) {s : Settings}
    {input : Except ReadFault Feed} {halted : Halted Table}
    (he : load table s input = .error halted) : halted.left.Consistent heap := by
  rcases load_refused he with hleft | hleft
  · exact hleft ▸ h
  · exact hleft ▸ Table.consistent_empty heap

theorem load_of_cols (s : Settings) (input : Except ReadFault Feed) (hc : 0 < table.cols) :
    ∃ fault, load table s input = .error ⟨fault, table⟩ := by
  unfold load
  cases input with
  | error fault => exact ⟨fault, rfl⟩
  | ok feed => exact ⟨_, if_pos (by simp [Table.isEmpty]; omega)⟩

/-- A load finds fault with the table only if the input came with that fault. -/
theorem load_fault {s : Settings} {feed : Feed} {halted : Halted Table}
    (he : load table s (.ok feed) = .error halted) : halted.fault.kind ≠ .internal := by
  unfold load at he
  dsimp only at he
  split at he
  · cases he
    exact ne_of_beq_false rfl
  · obtain ⟨fault, hfault, rfl⟩ := mapError_eq_error_iff.1 he
    exact ne_of_beq_false (Loading.external_fill table s feed fault hfault)

end TypedTable.Csv
