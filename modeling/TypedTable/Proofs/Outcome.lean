import TypedTable.Fault

/-!
# Sequenced results

A sequence of fallible steps succeeds when each step does, and fails with the first failure.
-/

set_option autoImplicit false

namespace TypedTable

variable {ε α β : Type}

@[simp] theorem ok_bind (a : α) (f : α → Except ε β) : (Except.ok a >>= f) = f a := rfl

@[simp] theorem error_bind (e : ε) (f : α → Except ε β) :
    (Except.error e >>= f) = Except.error e := rfl

@[simp] theorem pure_eq_ok (a : α) : (pure a : Except ε α) = Except.ok a := rfl

theorem bind_eq_ok_iff {x : Except ε α} {f : α → Except ε β} {b : β} :
    x >>= f = .ok b ↔ ∃ a, x = .ok a ∧ f a = .ok b := by
  cases x <;> simp

theorem bind_eq_error_iff {x : Except ε α} {f : α → Except ε β} {e : ε} :
    x >>= f = .error e ↔ x = .error e ∨ ∃ a, x = .ok a ∧ f a = .error e := by
  cases x <;> simp

theorem mapError_eq_ok_iff {ε' : Type} {f : ε → ε'} {x : Except ε α} {a : α} :
    x.mapError f = .ok a ↔ x = .ok a := by
  cases x with
  | ok found =>
    show Except.ok found = Except.ok a ↔ _
    rw [Except.ok.injEq, Except.ok.injEq]
  | error fault =>
    show Except.error (f fault) = Except.ok a ↔ _
    simp

theorem mapError_eq_error_iff {ε' : Type} {f : ε → ε'} {x : Except ε α} {e : ε'} :
    x.mapError f = .error e ↔ ∃ fault, x = .error fault ∧ f fault = e := by
  cases x with
  | ok found =>
    show Except.ok found = Except.error e ↔ _
    simp
  | error fault =>
    show Except.error (f fault) = Except.error e ↔ _
    simp

@[simp] theorem refuse_ok {σ : Type} (left : σ) (a : α) : refuse left (.ok a) = .ok a := rfl

@[simp] theorem refuse_error {σ : Type} (left : σ) (fault : TableFault) :
    refuse left (.error fault : Except TableFault α) = .error ⟨fault, left⟩ := rfl

@[simp] theorem within_ok {σ τ : Type} (whole : σ → τ) (a : α) :
    within whole (.ok a) = .ok a := rfl

theorem refuse_bind_eq_ok_iff {σ : Type} {left : σ} {x : Except TableFault α}
    {f : α → Except (Refused σ) β} {b : β} :
    refuse left x >>= f = .ok b ↔ ∃ a, x = .ok a ∧ f a = .ok b := by
  cases x <;> simp

theorem refuse_bind_eq_error_iff {σ : Type} {left : σ} {x : Except TableFault α}
    {f : α → Except (Refused σ) β} {refused : Refused σ} :
    refuse left x >>= f = .error refused ↔
      (∃ fault, x = .error fault ∧ refused = ⟨fault, left⟩) ∨
        ∃ a, x = .ok a ∧ f a = .error refused := by
  cases x <;> simp [eq_comm]

theorem within_eq_ok_iff {σ τ : Type} {whole : σ → τ} {x : Except (Refused σ) α} {a : α} :
    within whole x = .ok a ↔ x = .ok a :=
  mapError_eq_ok_iff

theorem within_bind_eq_ok_iff {σ τ : Type} {whole : σ → τ} {x : Except (Refused σ) α}
    {f : α → Except (Refused τ) β} {b : β} :
    within whole x >>= f = .ok b ↔ ∃ a, x = .ok a ∧ f a = .ok b := by
  rw [bind_eq_ok_iff]
  simp only [within_eq_ok_iff]

def Leaves {σ : Type} (state : σ) (answer : Except (Refused σ) α) : Prop :=
  ∀ refused, answer = .error refused → refused.left = state

namespace Leaves

variable {σ : Type} {state : σ}

theorem ok (a : α) : Leaves state (.ok a) := nofun

theorem error (fault : TableFault) : Leaves state (.error ⟨fault, state⟩ : Except _ α) := by
  rintro _ ⟨⟩
  rfl

theorem refuse (x : Except TableFault α) : Leaves state (refuse state x) := by
  cases x with
  | ok a => exact .ok a
  | error fault => exact .error fault

theorem holds {x : Except (Refused σ) α} (hx : Leaves state x) {P : σ → Prop} (h : P state) :
    ∀ refused, x = .error refused → P refused.left :=
  fun refused he => (hx refused he).symm ▸ h

/-- A later step may rely on the result of the earlier one. -/
theorem bind {x : Except (Refused σ) α} {f : α → Except (Refused σ) β} (hx : Leaves state x)
    (hf : ∀ a, x = .ok a → Leaves state (f a)) : Leaves state (x >>= f) := by
  intro refused h
  rcases bind_eq_error_iff.1 h with h | ⟨a, ha, h⟩
  · exact hx refused h
  · exact hf a ha refused h

theorem within {τ : Type} {x : Except (Refused σ) α} (hx : Leaves state x) (whole : σ → τ) :
    Leaves (whole state) (within whole x) := by
  intro refused h
  obtain ⟨part, hpart, rfl⟩ := mapError_eq_error_iff.1 h
  exact congrArg whole (hx part hpart)

/-- A check that is passed leaves the rest to be looked at. -/
theorem check {x : Except TableFault α} {f : α → Except (Refused σ) β}
    (hf : ∀ a, x = .ok a → Leaves state (f a)) : Leaves state (TypedTable.refuse state x >>= f) :=
  (Leaves.refuse x).bind fun a ha => hf a (mapError_eq_ok_iff.1 ha)

end Leaves

theorem mapM_eq_ok_iff {f : α → Except ε β} {as : List α} {bs : List β} :
    as.mapM f = .ok bs ↔ as.map f = bs.map .ok := by
  induction as generalizing bs with
  | nil => cases bs <;> simp
  | cons a as ih =>
    rw [List.mapM_cons, bind_eq_ok_iff]
    constructor
    · rintro ⟨b, hb, h⟩
      obtain ⟨rest, hrest, h⟩ := bind_eq_ok_iff.1 h
      cases h
      rw [List.map_cons, List.map_cons, hb, ih.1 hrest]
    · intro h
      cases bs with
      | nil => simp at h
      | cons b bs =>
        obtain ⟨hb, hrest⟩ := List.cons.inj h
        exact ⟨b, hb, bind_eq_ok_iff.2 ⟨bs, ih.2 hrest, rfl⟩⟩

theorem exists_ok_of_mapM {f : α → Except ε β} {as : List α} {bs : List β}
    (h : as.mapM f = .ok bs) {a : α} (hm : a ∈ as) : ∃ b, f a = .ok b := by
  have hmap : f a ∈ as.map f := List.mem_map_of_mem hm
  rw [mapM_eq_ok_iff.1 h] at hmap
  obtain ⟨b, -, hb⟩ := List.mem_map.1 hmap
  exact ⟨b, hb.symm⟩

/-- What the results of a run have in common with what it was given. -/
theorem map_result_of_mapM {γ : Type} {f : α → Except ε β} {g : β → γ} {k : α → γ} {as : List α}
    {bs : List β} (h : as.mapM f = .ok bs) (hg : ∀ a ∈ as, ∀ b, f a = .ok b → g b = k a) :
    bs.map g = as.map k := by
  induction as generalizing bs with
  | nil =>
    cases h
    rfl
  | cons a as ih =>
    rw [List.mapM_cons] at h
    obtain ⟨b, hb, h⟩ := bind_eq_ok_iff.1 h
    obtain ⟨rest, hrest, h⟩ := bind_eq_ok_iff.1 h
    cases h
    rw [List.map_cons, List.map_cons, hg a (by simp) b hb,
      ih hrest fun a hm => hg a (by simp [hm])]

/-- The results of a successful run by a partial function that agrees with the steps. -/
theorem map_eq_of_mapM {f : α → Except ε β} {g : α → Option β} {as : List α} {bs : List β}
    (h : as.mapM f = .ok bs) (hg : ∀ a ∈ as, ∀ b, f a = .ok b → g a = some b) :
    as.map g = bs.map some :=
  (map_result_of_mapM h fun a ha b hb => (hg a ha b hb).symm).symm

theorem foldlM_keeps {P : β → Prop} {f : β → α → Except ε β} {as : List α}
    (h : ∀ b a later, P b → f b a = .ok later → P later) {b later : β} (hb : P b)
    (hok : as.foldlM f b = .ok later) : P later := by
  induction as generalizing b with
  | nil =>
    cases hok
    exact hb
  | cons a as ih =>
    rw [List.foldlM_cons] at hok
    obtain ⟨next, hnext, hok⟩ := bind_eq_ok_iff.1 hok
    exact ih (h b a next hb hnext) hok

/-- What each step makes of the members before it holds of all members in the end. -/
theorem foldlM_prefix {P : List α → β → Prop} {f : β → α → Option β}
    (hstep : ∀ {done b a next}, P done b → f b a = some next → P (done ++ [a]) next)
    {done as : List α} {b last : β} (h : P done b) (hrun : as.foldlM f b = some last) :
    P (done ++ as) last := by
  induction as generalizing done b with
  | nil =>
    obtain rfl := Option.some.inj hrun
    rwa [List.append_nil]
  | cons a as ih =>
    rw [List.foldlM_cons] at hrun
    obtain ⟨next, hnext, hrest⟩ := Option.bind_eq_some_iff.1 hrun
    have hlast := ih (hstep h hnext) hrest
    rwa [List.append_assoc] at hlast

/-- A first step and one whose success does not depend on its result. -/
theorem exists_bind_iff {Q : Prop} {x : Except ε α} {f : α → Except ε β}
    (h : ∀ a, x = .ok a → ((∃ b, f a = .ok b) ↔ Q)) :
    (∃ b, x >>= f = .ok b) ↔ (∃ a, x = .ok a) ∧ Q := by
  cases x with
  | ok a => simpa using h a rfl
  | error fault => simp

/-- A run over a list succeeds when each of its steps does, as long as whether a step does depends on
the state only by what every step keeps. -/
theorem exists_foldlM_iff {P : β → Prop} {Q : α → Prop} {f : β → α → Except ε β} {as : List α}
    (h : ∀ a ∈ as, ∀ b, P b → ((∃ later, f b a = .ok later) ↔ Q a))
    (hk : ∀ a ∈ as, ∀ b later, P b → f b a = .ok later → P later) {b : β} (hb : P b) :
    (∃ later, as.foldlM f b = .ok later) ↔ ∀ a ∈ as, Q a := by
  induction as generalizing b with
  | nil => simp
  | cons a as ih =>
    rw [List.foldlM_cons, List.forall_mem_cons, ← h a (by simp) b hb]
    exact exists_bind_iff fun next hnext => ih (fun a hm => h a (by simp [hm]))
      (fun a hm => hk a (by simp [hm])) (hk a (by simp) b next hb hnext)

theorem exists_mapM_ok {f : α → Except ε β} {as : List α} (h : ∀ a ∈ as, ∃ b, f a = .ok b) :
    ∃ bs, as.mapM f = .ok bs := by
  induction as with
  | nil => exact ⟨[], rfl⟩
  | cons a as ih =>
    obtain ⟨b, hb⟩ := h a (by simp)
    obtain ⟨bs, hbs⟩ := ih fun a hm => h a (by simp [hm])
    exact ⟨b :: bs, by rw [List.mapM_cons, hb, ok_bind, hbs]; rfl⟩

theorem forM_eq_ok_iff {f : α → Except ε Unit} {as : List α} :
    as.forM f = .ok () ↔ ∀ a ∈ as, f a = .ok () := by
  induction as with
  | nil => simp
  | cons a as ih =>
    rw [List.forall_mem_cons, ← ih]
    constructor
    · intro h
      obtain ⟨u, ha, hrest⟩ := bind_eq_ok_iff.1 h
      exact ⟨ha, hrest⟩
    · rintro ⟨ha, hrest⟩
      exact bind_eq_ok_iff.2 ⟨(), ha, hrest⟩

@[simp] theorem require_eq_ok {condition : Prop} [Decidable condition] {fault : TableFault}
    {u : Unit} : require condition fault = .ok u ↔ condition := by
  unfold require
  split <;> simp [*]

def FirstOf (P : α → Prop) (as : List α) (a : α) : Prop :=
  ∃ before after, as = before ++ a :: after ∧ P a ∧ ∀ b ∈ before, ¬ P b

theorem FirstOf.mem {P : α → Prop} {as : List α} {a : α} (h : FirstOf P as a) : a ∈ as := by
  obtain ⟨before, after, rfl, -, -⟩ := h
  simp

theorem FirstOf.holds {P : α → Prop} {as : List α} {a : α} (h : FirstOf P as a) : P a := by
  obtain ⟨-, -, -, ha, -⟩ := h
  exact ha

theorem firstOf_cons_iff {P : α → Prop} {as : List α} {a b : α} :
    FirstOf P (a :: as) b ↔ (P a ∧ b = a) ∨ (¬ P a ∧ FirstOf P as b) := by
  constructor
  · rintro ⟨before, after, hsplit, hb, hbefore⟩
    cases before with
    | nil =>
      obtain ⟨rfl, -⟩ := List.cons.inj hsplit
      exact .inl ⟨hb, rfl⟩
    | cons head before =>
      obtain ⟨rfl, rfl⟩ := List.cons.inj hsplit
      exact .inr ⟨hbefore a (by simp), before, after, rfl, hb,
        fun c hc => hbefore c (by simp [hc])⟩
  · rintro (⟨ha, rfl⟩ | ⟨ha, before, after, rfl, hb, hbefore⟩)
    · exact ⟨[], as, rfl, ha, by simp⟩
    · exact ⟨a :: before, after, rfl, hb, List.forall_mem_cons.2 ⟨ha, hbefore⟩⟩

theorem find?_eq_some_iff_firstOf {p : α → Bool} {as : List α} {a : α} :
    as.find? p = some a ↔ FirstOf (fun b => p b = true) as a := by
  rw [List.find?_eq_some_iff_append]
  constructor
  · rintro ⟨ha, before, after, rfl, hbefore⟩
    exact ⟨before, after, rfl, ha, fun b hb => by simpa using hbefore b hb⟩
  · rintro ⟨before, after, rfl, ha, hbefore⟩
    exact ⟨ha, before, after, rfl, fun b hb => by simpa using hbefore b hb⟩

/-- Something is the first with the property as soon as anything has it. -/
theorem exists_firstOf_iff {P : α → Prop} {as : List α} :
    (∃ a, FirstOf P as a) ↔ ∃ a ∈ as, P a := by
  constructor
  · rintro ⟨a, h⟩
    exact ⟨a, h.mem, h.holds⟩
  · rintro ⟨a, hmem, ha⟩
    induction as with
    | nil => cases hmem
    | cons head as ih =>
      simp only [firstOf_cons_iff]
      by_cases hhead : P head
      · exact ⟨head, .inl ⟨hhead, rfl⟩⟩
      · rcases List.mem_cons.1 hmem with rfl | hmem
        · exact absurd ha hhead
        · obtain ⟨b, hb⟩ := ih hmem
          exact ⟨b, .inr ⟨hhead, hb⟩⟩

/-- A run over a list fails with the first of its steps that fails. -/
theorem mapM_eq_error_iff {f : α → Except ε β} {as : List α} {e : ε} :
    as.mapM f = .error e ↔ ∃ a, FirstOf (fun b => ∃ fault, f b = .error fault) as a ∧
      f a = .error e := by
  induction as with
  | nil =>
    constructor
    · intro h
      cases h
    · rintro ⟨a, ha, -⟩
      exact absurd ha.mem List.not_mem_nil
  | cons head as ih =>
    rw [List.mapM_cons, bind_eq_error_iff]
    simp only [firstOf_cons_iff]
    constructor
    · rintro (hhead | ⟨b, hb, hrest⟩)
      · exact ⟨head, .inl ⟨⟨e, hhead⟩, rfl⟩, hhead⟩
      · rcases bind_eq_error_iff.1 hrest with hrest | ⟨_, -, hpure⟩
        · obtain ⟨a, hfirst, ha⟩ := ih.1 hrest
          refine ⟨a, .inr ⟨?_, hfirst⟩, ha⟩
          rintro ⟨fault, hfault⟩
          rw [hb] at hfault
          cases hfault
        · cases hpure
    · rintro ⟨a, ⟨-, rfl⟩ | ⟨hhead, hfirst⟩, ha⟩
      · exact .inl ha
      · cases hb : f head with
        | error fault => exact absurd ⟨fault, hb⟩ hhead
        | ok b => exact .inr ⟨b, rfl, bind_eq_error_iff.2 (.inl (ih.2 ⟨a, hfirst, ha⟩))⟩

theorem mapM_congr {f g : α → Except ε β} {as : List α} (h : ∀ a ∈ as, f a = g a) :
    as.mapM f = as.mapM g := by
  induction as with
  | nil => rfl
  | cons a as ih =>
    rw [List.mapM_cons, List.mapM_cons, h a (by simp), ih fun b hb => h b (by simp [hb])]

/-- A run over lists that are run over one after the other is a run over all of their members. -/
theorem mapM_flatMap {γ : Type} {f : β → Except ε γ} {g : α → List β} {run : α → Except ε (List γ)}
    {as : List α} (h : ∀ a ∈ as, run a = (g a).mapM f) :
    (as.flatMap g).mapM f = as.mapM run >>= fun found => .ok found.flatten := by
  induction as with
  | nil => rfl
  | cons a as ih =>
    rw [List.flatMap_cons, List.mapM_append, List.mapM_cons, h a (by simp),
      ih fun b hb => h b (by simp [hb])]
    cases (g a).mapM f with
    | error fault => rfl
    | ok row => cases as.mapM run <;> rfl

def Yields (P : α → Prop) (E : ε → Prop) : Except ε α → Prop
  | .ok a => P a
  | .error e => E e

theorem Yields.bind {P : α → Prop} {Q : β → Prop} {E : ε → Prop} {x : Except ε α}
    {f : α → Except ε β} (hx : Yields P E x) (hf : ∀ a, P a → Yields Q E (f a)) :
    Yields Q E (x >>= f) := by
  cases x with
  | ok a => exact hf a hx
  | error e => exact hx

def Avoids (bad : ε → Bool) (answer : Except ε α) : Prop :=
  ∀ fault, answer = .error fault → bad fault = false

namespace Avoids

variable {bad : ε → Bool}

theorem ok (a : α) : Avoids bad (.ok a) := by
  intro fault h
  cases h

theorem error {fault : ε} (h : bad fault = false) : Avoids bad (.error fault : Except ε α) := by
  rintro _ ⟨⟩
  exact h

/-- A later step may rely on the result of the earlier one. -/
theorem bind {x : Except ε α} {f : α → Except ε β} (hx : Avoids bad x)
    (hf : ∀ a, x = .ok a → Avoids bad (f a)) : Avoids bad (x >>= f) := by
  intro fault h
  rcases bind_eq_error_iff.1 h with h | ⟨a, ha, h⟩
  · exact hx fault h
  · exact hf a ha fault h

theorem mapM {f : α → Except ε β} {as : List α} (h : ∀ a ∈ as, Avoids bad (f a)) :
    Avoids bad (as.mapM f) := by
  induction as with
  | nil => exact .ok []
  | cons a as ih =>
    rw [List.mapM_cons]
    refine (h a (by simp)).bind fun b _ => ?_
    exact (ih fun a ha => h a (by simp [ha])).bind fun bs _ => .ok (b :: bs)

theorem forM {f : α → Except ε Unit} {as : List α} (h : ∀ a ∈ as, Avoids bad (f a)) :
    Avoids bad (as.forM f) := by
  induction as with
  | nil => exact .ok ()
  | cons a as ih => exact (h a (by simp)).bind fun _ _ => ih fun a ha => h a (by simp [ha])

theorem foldlM {f : β → α → Except ε β} {as : List α} (h : ∀ b, ∀ a ∈ as, Avoids bad (f b a))
    (b : β) : Avoids bad (as.foldlM f b) := by
  induction as generalizing b with
  | nil => exact .ok b
  | cons a as ih =>
    rw [List.foldlM_cons]
    exact (h b a (by simp)).bind fun b _ => ih (fun b a ha => h b a (by simp [ha])) b

theorem mapError {ε' : Type} {bad : ε' → Bool} {f : ε → ε'} {x : Except ε α}
    (h : Avoids (fun fault => bad (f fault)) x) : Avoids bad (x.mapError f) := by
  intro fault he
  obtain ⟨cause, hcause, rfl⟩ := mapError_eq_error_iff.1 he
  exact h cause hcause

theorem require {condition : Prop} [Decidable condition] {fault : TableFault}
    {bad : TableFault → Bool} (h : bad fault = false) :
    Avoids bad (TypedTable.require condition fault) := by
  unfold TypedTable.require
  split
  · exact .ok ()
  · exact .error h

end Avoids

end TypedTable
