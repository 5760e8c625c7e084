import TypedTable.Labels

/-!
# The two places of a label

What stands under a name is the column with this label, and every label of a column is found under
its name. Labels that are given, moved or taken over keep this, so a label stands for one column and
a column has one label.
-/

set_option autoImplicit false

namespace TypedTable.Labels

/-- The labels of `cols` columns, which are the same in both places. -/
structure Matched (labels : Labels) (cols : Nat) : Prop where
  length : labels.names.length = cols
  find?_iff (name : String) (col : Nat) :
    labels.index.find? name = some col ↔ labels.names[col]? = some (some name)

theorem matched_empty : ({} : Labels).Matched 0 where
  length := rfl
  find?_iff name col := by simp [Keyed.find?]

variable {labels other : Labels} {cols col : Nat} {name : String}

theorem getElem?_set_label {names : List (Option String)} {label : Option String}
    (hc : col < names.length) (other : Nat) :
    (names.set col label)[other]? = if other = col then some label else names[other]? := by
  split
  next h => rw [h, List.getElem?_set_self hc]
  next h => rw [List.getElem?_set_ne (Ne.symm h)]

namespace Matched

theorem lt (h : labels.Matched cols) (hn : labels.names[col]? = some (some name)) : col < cols :=
  h.length ▸ (List.getElem?_eq_some_iff.1 hn).1

theorem unique (h : labels.Matched cols) {other : Nat}
    (hn : labels.names[col]? = some (some name)) (ho : labels.names[other]? = some (some name)) :
    other = col := by
  have hfound := (h.find?_iff name col).2 hn
  rw [(h.find?_iff name other).2 ho] at hfound
  exact Option.some.inj hfound

theorem isSome_find?_iff (h : labels.Matched cols) :
    (labels.index.find? name).isSome = true ↔ some name ∈ labels.names := by
  rw [Option.isSome_iff_exists, List.mem_iff_getElem?]
  exact exists_congr fun col => h.find?_iff name col

theorem widen (h : labels.Matched cols) (count : Nat) :
    (labels.widen count).Matched (cols + count) where
  length := by simp [Labels.widen, h.length]
  find?_iff name col := by
    rw [Labels.widen, h.find?_iff, List.getElem?_append]
    split
    next => rfl
    next hc =>
      rw [List.getElem?_eq_none (Nat.le_of_not_lt hc), List.getElem?_replicate]
      split <;> simp

theorem remove (h : labels.Matched cols) (hn : labels.names[col]? = some (some name)) :
    Matched { names := labels.names.set col none, index := labels.index.erase name } cols where
  length := by rw [List.length_set, h.length]
  find?_iff other place := by
    have hlt := (List.getElem?_eq_some_iff.1 hn).1
    rw [Keyed.find?_erase, getElem?_set_label hlt]
    by_cases hplace : place = col
    · subst hplace
      rw [if_pos rfl]
      refine iff_of_false (fun hfound => ?_) (by simp)
      split at hfound
      next => cases hfound
      next hne =>
        rw [h.find?_iff, hn, Option.some.injEq, Option.some.injEq] at hfound
        exact hne hfound.symm
    · rw [if_neg hplace]
      split
      next he =>
        refine iff_of_false (by simp) fun hother => hplace ?_
        exact h.unique hn (he ▸ hother)
      next => exact h.find?_iff other place

theorem release (h : labels.Matched cols) (name : String) : (labels.release name).Matched cols := by
  unfold Labels.release
  split
  next col hfound => exact h.remove ((h.find?_iff name col).1 hfound)
  next => exact h

theorem clear (h : labels.Matched cols) (col : Nat) : (labels.clear col).Matched cols := by
  unfold Labels.clear
  split
  next name hname => exact h.remove (Option.join_eq_some_iff.1 hname)
  next => exact h

/-- A name that is not in use becomes the label of a column without one. -/
theorem enter (h : labels.Matched cols) (hfree : labels.index.find? name = none)
    (hnone : labels.names[col]? = some none) : (labels.enter name col).Matched cols where
  length := by rw [Labels.enter, List.length_set, h.length]
  find?_iff other place := by
    have hlt := (List.getElem?_eq_some_iff.1 hnone).1
    rw [Labels.enter, Keyed.find?_put, getElem?_set_label hlt]
    by_cases hplace : place = col
    · subst hplace
      rw [if_pos rfl]
      split
      next he => simp [he]
      next hne =>
        refine iff_of_false (fun hfound => ?_) fun he => hne ?_
        · rw [h.find?_iff, hnone] at hfound
          cases hfound
        · exact (Option.some.inj (Option.some.inj he)).symm
    · rw [if_neg hplace]
      split
      next he =>
        refine iff_of_false (fun hfound => hplace (Option.some.inj hfound).symm) fun hother => ?_
        rw [← h.find?_iff, he, hfree] at hother
        cases hother
      next => exact h.find?_iff other place

end Matched

/-! ## Giving a label -/

theorem find?_release (labels : Labels) (name : String) :
    (labels.release name).index.find? name = none := by
  unfold release
  split
  next => exact Keyed.find?_erase_self _ _
  next hfound => exact hfound

theorem length_release (labels : Labels) (name : String) :
    (labels.release name).names.length = labels.names.length := by
  unfold release
  split
  next => exact List.length_set
  next => rfl

theorem find?_clear (hfree : labels.index.find? name = none) (col : Nat) :
    (labels.clear col).index.find? name = none := by
  unfold clear
  split
  next => rw [Keyed.find?_erase, hfree, ite_self]
  next => exact hfree

theorem set_names_clear (labels : Labels) (col : Nat) (label : Option String) :
    (labels.clear col).names.set col label = labels.names.set col label := by
  unfold clear
  split
  next => rw [List.set_set]
  next => rfl

theorem getElem?_clear (hc : col < labels.names.length) :
    (labels.clear col).names[col]? = some none := by
  unfold clear
  split
  next => exact List.getElem?_set_self hc
  next hnone =>
    rw [List.getElem?_eq_getElem hc] at hnone ⊢
    exact congrArg some hnone

def relabel (names : List (Option String)) (name : String) (col : Nat) : List (Option String) :=
  (names.map fun label => if label = some name then none else label).set col (some name)

theorem length_relabel (names : List (Option String)) (name : String) (col : Nat) :
    (relabel names name col).length = names.length := by
  rw [relabel, List.length_set, List.length_map]

theorem getElem?_relabel (names : List (Option String)) (hc : col < names.length) (place : Nat) :
    (relabel names name col)[place]? =
      if place = col then some (some name)
      else names[place]?.map fun label => if label = some name then none else label := by
  rw [relabel, getElem?_set_label (by rwa [List.length_map]), List.getElem?_map]

namespace Matched

theorem names_release (h : labels.Matched cols) (name : String) :
    (labels.release name).names =
      labels.names.map fun label => if label = some name then none else label := by
  unfold Labels.release
  refine List.ext_getElem? fun place => ?_
  rw [List.getElem?_map]
  split
  next col hfound =>
    have hname := (h.find?_iff name col).1 hfound
    rw [getElem?_set_label (List.getElem?_eq_some_iff.1 hname).1]
    split
    next he => rw [he, hname, Option.map_some, if_pos rfl]
    next hne =>
      cases hlabel : labels.names[place]? with
      | none => rfl
      | some label =>
        have hother : label ≠ some name := fun he => hne (h.unique hname (he ▸ hlabel))
        rw [Option.map_some, if_neg hother]
  next hnone =>
    cases hlabel : labels.names[place]? with
    | none => rfl
    | some label =>
      have hother : label ≠ some name := fun he => by
        rw [(h.find?_iff name place).2 (he ▸ hlabel)] at hnone
        cases hnone
      rw [Option.map_some, if_neg hother]

theorem names_attach (h : labels.Matched cols) (name : String) (col : Nat) :
    (labels.attach name col).names = relabel labels.names name col := by
  rw [attach, Labels.enter, set_names_clear, h.names_release, relabel]

theorem attach (h : labels.Matched cols) (name : String) (hc : col < cols) :
    (labels.attach name col).Matched cols := by
  have hlt : col < (labels.release name).names.length := by rwa [length_release, h.length]
  exact ((h.release name).clear col).enter (find?_clear (labels.find?_release name) col)
    (getElem?_clear hlt)

end Matched

/-! ## Taking labels over -/

def movedLabels (taken moved : List (Option String)) : List (Option String) :=
  moved.map fun label => if label.isSome ∧ label ∈ taken then none else label

theorem getElem?_movedLabels (taken moved : List (Option String)) (col : Nat) :
    (movedLabels taken moved)[col]? =
      moved[col]?.map fun label => if label.isSome ∧ label ∈ taken then none else label :=
  List.getElem?_map

/-- A label that comes up once more is all that matters of what is added to the labels taken. -/
theorem movedLabels_append_singleton {taken moved : List (Option String)} {label : Option String}
    (hl : label.isSome → label ∉ moved) :
    movedLabels (taken ++ [label]) moved = movedLabels taken moved := by
  refine List.map_congr_left fun next hm => ?_
  have hne : next.isSome = true → next ≠ label := fun hsome he => hl (he ▸ hsome) (he ▸ hm)
  have hsame : (next.isSome = true ∧ next ∈ taken ++ [label]) ↔
      (next.isSome = true ∧ next ∈ taken) := by
    refine and_congr_right fun hsome => ?_
    rw [List.mem_append, List.mem_singleton, or_iff_left (hne hsome)]
  simp only [hsame]

def Distinct (names : List (Option String)) : Prop :=
  names.Pairwise fun a b => a.isSome → a ≠ b

theorem Matched.distinct (h : labels.Matched cols) : Distinct labels.names := by
  refine List.pairwise_iff_getElem.2 fun place later hp hl hlt hsome he => ?_
  obtain ⟨name, hname⟩ := Option.isSome_iff_exists.1 hsome
  have hplace : labels.names[place]? = some (some name) := by
    rw [List.getElem?_eq_getElem hp, hname]
  have hlater : labels.names[later]? = some (some name) := by
    rw [List.getElem?_eq_getElem hl, ← he, hname]
  exact Nat.ne_of_gt hlt (h.unique hplace hlater)

theorem Matched.enterUnused (h : labels.Matched cols) {moved : List (Option String)}
    (hnone : ∀ place, col ≤ place → place < cols → labels.names[place]? = some none)
    (hl : col + moved.length ≤ cols) : (enterUnused moved col labels).Matched cols := by
  induction moved generalizing col labels with
  | nil => exact h
  | cons label later ih =>
    rw [List.length_cons] at hl
    cases label with
    | none => exact ih h (fun place hp => hnone place (by omega)) (by omega)
    | some name =>
      rw [Labels.enterUnused]
      split
      next => exact ih h (fun place hp => hnone place (by omega)) (by omega)
      next hfree =>
        have hempty := hnone col (Nat.le_refl col) (by omega)
        refine ih (h.enter ?_ hempty) (fun place hp hlt => ?_) (by omega)
        · exact Option.isNone_iff_eq_none.1 (by simpa [Keyed.contains] using hfree)
        · rw [Labels.enter, getElem?_set_label (List.getElem?_eq_some_iff.1 hempty).1,
            if_neg (by omega)]
          exact hnone place (by omega) hlt

/-- The labels of columns without labels, once those that are not in use are given to them. -/
theorem names_enterUnused {done moved : List (Option String)} {index : Keyed String Nat}
    (hi : ∀ name, (index.find? name).isSome = true ↔ some name ∈ done) (hd : Distinct moved) :
    (enterUnused moved done.length ⟨done ++ List.replicate moved.length none, index⟩).names =
      done ++ movedLabels done moved := by
  -- the index answers for the labels in `done`, so a label is in use just if `done` has it
  induction moved generalizing done index with
  | nil => rfl
  | cons label later ih =>
    obtain ⟨hfirst, hlater⟩ := List.pairwise_cons.1 hd
    have hnew : label.isSome → label ∉ later := fun hsome hm => hfirst label hm hsome rfl
    have hstep (given : Option String) (index : Keyed String Nat)
        (hi : ∀ name, (index.find? name).isSome = true ↔ some name ∈ done ++ [given])
        (hg : given.isSome → given ∉ later) :
        (enterUnused later (done.length + 1)
          ⟨done ++ given :: List.replicate later.length none, index⟩).names =
          done ++ given :: movedLabels done later := by
      have := ih hi hlater
      rwa [List.length_append, List.length_singleton, List.append_assoc, List.singleton_append,
        movedLabels_append_singleton hg, List.append_assoc, List.singleton_append] at this
    have hpassed (name : String) :
        (index.find? name).isSome = true ↔ some name ∈ done ++ [none] := by
      simp [hi]
    rw [List.length_cons, List.replicate_succ]
    cases label with
    | none => exact hstep none index hpassed (by simp)
    | some name =>
      rw [enterUnused, movedLabels, List.map_cons]
      split
      next hused =>
        rw [if_pos ⟨rfl, (hi name).1 hused⟩]
        exact hstep none index hpassed (by simp)
      next hfree =>
        rw [if_neg fun h => hfree ((hi name).2 h.2), enter,
          List.set_append_right _ _ (Nat.le_refl _), Nat.sub_self, List.set_cons_zero]
        refine hstep (some name) _ (fun other => ?_) hnew
        rw [Keyed.find?_put, List.mem_append, List.mem_singleton, Option.some.injEq, ← hi other]
        split
        next he => simp [he]
        next hne => simp [hne]

section Join

variable (h : labels.Matched cols) {width : Nat} (ho : other.Matched width)

include h ho

theorem Matched.join :
    (Labels.enterUnused other.names cols (labels.widen width)).Matched (cols + width) := by
  refine (h.widen width).enterUnused (fun place hp hlt => ?_) (Nat.le_of_eq (by rw [ho.length]))
  rw [Labels.widen, List.getElem?_append_right (h.length ▸ hp), List.getElem?_replicate,
    if_pos (by rw [h.length]; omega)]

theorem Matched.names_join :
    (Labels.enterUnused other.names cols (labels.widen width)).names =
      labels.names ++ movedLabels labels.names other.names := by
  rw [← h.length, ← ho.length, Labels.widen]
  exact names_enterUnused (fun name => h.isSome_find?_iff) ho.distinct

/-- A name stands for a column that was there, or else for the one that came with it. -/
theorem Matched.find?_join (name : String) :
    (Labels.enterUnused other.names cols (labels.widen width)).index.find? name =
      match labels.index.find? name with
      | some col => some col
      | none => (other.index.find? name).map (· + cols) := by
  refine Option.ext fun col => ?_
  rw [(h.join ho).find?_iff, h.names_join ho, List.getElem?_append, h.length]
  cases hfound : labels.index.find? name with
  | some place =>
    have hname := (h.find?_iff name place).1 hfound
    show _ ↔ some place = some col
    rw [← hfound, h.find?_iff]
    split
    next => rfl
    next hc =>
      -- the name is taken, so no column that came has it
      refine iff_of_false (fun hmoved => ?_) fun hold => hc (h.lt hold)
      rw [getElem?_movedLabels] at hmoved
      obtain ⟨label, -, hlabel⟩ := Option.map_eq_some_iff.1 hmoved
      split at hlabel
      next => cases hlabel
      next hfree => exact hfree (hlabel ▸ ⟨rfl, List.mem_of_getElem? hname⟩)
  | none =>
    have hfree : some name ∉ labels.names := fun hm => by
      have := h.isSome_find?_iff.2 hm
      rw [hfound] at this
      cases this
    show _ ↔ (other.index.find? name).map (· + cols) = some col
    rw [Option.map_eq_some_iff]
    split
    next hc =>
      refine iff_of_false (fun hold => hfree (List.mem_of_getElem? hold)) ?_
      rintro ⟨place, -, rfl⟩
      omega
    next hc =>
      rw [getElem?_movedLabels, Option.map_eq_some_iff]
      constructor
      · rintro ⟨label, hlabel, hsame⟩
        split at hsame
        next => cases hsame
        next => exact ⟨col - cols, (ho.find?_iff name _).2 (hsame ▸ hlabel), by omega⟩
      · rintro ⟨place, hplace, rfl⟩
        refine ⟨some name, ?_, if_neg fun h => hfree h.2⟩
        rw [Nat.add_sub_cancel]
        exact (ho.find?_iff name place).1 hplace

end Join

end TypedTable.Labels
