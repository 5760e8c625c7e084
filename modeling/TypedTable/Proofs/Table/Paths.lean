import Mathlib.Data.List.Basic
import TypedTable.Table.Arena

/-!
# Chains in a growing arena

A path runs forward and ends. Adding a block or a head changes no path; linking a node behind the last
one of a path makes that path longer by it, and no path that is apart from it.
-/

set_option autoImplicit false

namespace TypedTable.Arena

/-- Following the links from a node leads through these nodes to one without a successor. -/
inductive Leads (arena : Arena) : Nat → List Nat → Prop
  | last {id : Nat} {node : Node} (hn : arena.nodes[id]? = some node) (hl : node.next = none) :
    Leads arena id [id]
  | step {id next : Nat} {node : Node} {rest : List Nat} (hn : arena.nodes[id]? = some node)
    (hl : node.next = some next) (hr : Leads arena next rest) : Leads arena id (id :: rest)

variable {arena other : Arena} {id : Nat} {ids : List Nat}

theorem path_of_none (hn : arena.nodes[id]? = none) : arena.path id = [] := by
  rw [path]
  split
  · rfl
  next node hs => simp [hn] at hs

theorem path_of_last {node : Node} (hn : arena.nodes[id]? = some node) (hl : node.next = none) :
    arena.path id = [id] := by
  rw [path]
  split
  next hs => simp [hn] at hs
  next found hs =>
    obtain rfl := Option.some.inj (hn.symm.trans hs)
    split
    · rfl
    next next hs => simp [hl] at hs

theorem path_of_next {node : Node} {next : Nat} (hn : arena.nodes[id]? = some node)
    (hl : node.next = some next) : arena.path id = id :: arena.path next := by
  rw [path]
  split
  next hs => simp [hn] at hs
  next found hs =>
    obtain rfl := Option.some.inj (hn.symm.trans hs)
    split
    next hs => simp [hl] at hs
    next found hs => rw [Option.some.inj (hl.symm.trans hs)]

theorem leads_path (h : id < arena.nodes.size) : arena.Leads id (arena.path id) := by
  induction id using path.induct arena with
  | case1 id hn => simp [h] at hn
  | case2 id node hn hl =>
    rw [path_of_last hn hl]
    exact .last hn hl
  | case3 id node hn next hl ih =>
    rw [path_of_next hn hl]
    exact .step hn hl (ih (arena.forward id node next hn hl).2)

section Link

variable (placement : Placement) (arena : Arena) (tail : Nat)

theorem nodes_link_new :
    (link placement arena tail).nodes[arena.nodes.size]? =
      some { placement with next := none } := by
  rw [link, Array.getElem?_push, Array.size_modify, if_pos rfl]

theorem nodes_link_tail (hlt : tail < arena.nodes.size) :
    (link placement arena tail).nodes[tail]? =
      arena.nodes[tail]?.map fun node => { node with next := some arena.nodes.size } := by
  rw [link, Array.getElem?_push, Array.size_modify, if_neg (Nat.ne_of_lt hlt),
    Array.getElem?_modify, if_pos rfl]

theorem nodes_link_of_ne {id : Nat} (hlt : id < arena.nodes.size) (hne : tail ≠ id) :
    (link placement arena tail).nodes[id]? = arena.nodes[id]? := by
  rw [link, Array.getElem?_push, Array.size_modify, if_neg (Nat.ne_of_lt hlt),
    Array.getElem?_modify, if_neg hne]

theorem placement?_link {id : Nat} (hlt : id < arena.nodes.size) :
    (link placement arena tail).placement? id = arena.placement? id := by
  rw [placement?, placement?]
  by_cases h : tail = id
  · subst h
    rw [nodes_link_tail placement arena tail hlt, Option.map_map]
    rfl
  · rw [nodes_link_of_ne placement arena tail hlt h]

end Link

namespace Leads

theorem path_eq (h : arena.Leads id ids) : arena.path id = ids := by
  induction h with
  | last hn hl => exact path_of_last hn hl
  | step hn hl hr ih => rw [path_of_next hn hl, ih]

theorem mem_self (h : arena.Leads id ids) : id ∈ ids := by
  cases h <;> exact List.mem_cons_self

theorem lt_size (h : arena.Leads id ids) {i : Nat} (hi : i ∈ ids) : i < arena.nodes.size := by
  induction h with
  | last hn hl =>
    obtain rfl := List.mem_singleton.1 hi
    exact (Array.getElem?_eq_some_iff.1 hn).1
  | step hn hl hr ih =>
    rcases List.mem_cons.1 hi with rfl | hi
    · exact (Array.getElem?_eq_some_iff.1 hn).1
    · exact ih hi

/-- The links along a path only matter at its own nodes. -/
theorem congr (h : arena.Leads id ids) (hn : ∀ i ∈ ids, other.nodes[i]? = arena.nodes[i]?) :
    other.Leads id ids := by
  induction h with
  | last hnode hl => exact .last ((hn _ List.mem_cons_self).trans hnode) hl
  | step hnode hl hr ih =>
    exact .step ((hn _ List.mem_cons_self).trans hnode) hl
      (ih fun i hi => hn i (List.mem_cons_of_mem _ hi))

theorem exists_last (h : arena.Leads id ids) :
    ∃ tail node, ids.getLast? = some tail ∧ arena.nodes[tail]? = some node ∧ node.next = none := by
  induction h with
  | last hn hl => exact ⟨_, _, rfl, hn, hl⟩
  | step hn hl hr ih =>
    obtain ⟨tail, node, htail, hnode, hnext⟩ := ih
    refine ⟨tail, node, ?_, hnode, hnext⟩
    rw [List.getLast?_cons, htail]
    rfl

theorem forward (h : arena.Leads id ids) : (∀ i ∈ ids, id ≤ i) ∧ ids.Pairwise (· < ·) := by
  induction h with
  | last hn hl => exact ⟨by simp, List.pairwise_singleton _ _⟩
  | @step id next node rest hn hl hr ih =>
    have hlt := (arena.forward id node next hn hl).1
    refine ⟨?_, List.pairwise_cons.2 ⟨fun i hi => ?_, ih.2⟩⟩
    · intro i hi
      rcases List.mem_cons.1 hi with rfl | hi
      · exact Nat.le_refl _
      · have := ih.1 i hi
        omega
    · have := ih.1 i hi
      omega

/-- Past the node that is linked to a new one the path goes on there. -/
theorem link {tail : Nat} (placement : Placement) (h : arena.Leads id ids)
    (ht : ids.getLast? = some tail) :
    (Arena.link placement arena tail).Leads id (ids ++ [arena.nodes.size]) := by
  have hnew : (Arena.link placement arena tail).Leads arena.nodes.size [arena.nodes.size] :=
    .last (nodes_link_new placement arena tail) rfl
  induction h with
  | @last id node hn hl =>
    obtain rfl : id = tail := by simpa using ht
    have hlt := (Array.getElem?_eq_some_iff.1 hn).1
    have hlinked : (Arena.link placement arena id).nodes[id]? =
        some { node with next := some arena.nodes.size } := by
      rw [nodes_link_tail placement arena id hlt, hn]
      rfl
    exact .step hlinked rfl hnew
  | @step id next node rest hn hl hr ih =>
    have hlast : rest.getLast? = some tail := by
      obtain ⟨last, -, hlast, -⟩ := hr.exists_last
      rw [List.getLast?_cons, hlast] at ht
      rw [hlast]
      exact ht
    have hne : tail ≠ id := by
      have hnext := (arena.forward id node next hn hl).1
      have := hr.forward.1 tail (List.mem_of_getLast? hlast)
      omega
    have hlt := (Array.getElem?_eq_some_iff.1 hn).1
    refine .step ?_ hl (ih hlast)
    rw [nodes_link_of_ne placement arena tail hlt hne, hn]

end Leads

section Chains

theorem chain_of_leads (h : arena.Leads id ids) :
    arena.chain id = ids.filterMap arena.placement? := by
  rw [chain, h.path_eq]

theorem chain_congr (h : arena.Leads id ids) (hn : ∀ i ∈ ids, other.nodes[i]? = arena.nodes[i]?) :
    other.chain id = arena.chain id := by
  rw [chain_of_leads h, chain_of_leads (h.congr hn)]
  apply List.filterMap_congr
  intro i hi
  rw [placement?, placement?, hn i hi]

theorem chain_link {tail : Nat} (placement : Placement) (h : arena.Leads id ids)
    (ht : ids.getLast? = some tail) :
    (link placement arena tail).chain id = arena.chain id ++ [placement] := by
  rw [chain_of_leads (h.link placement ht), chain_of_leads h, List.filterMap_append]
  congr 1
  · apply List.filterMap_congr
    intro i hi
    exact placement?_link placement arena tail (h.lt_size hi)
  · rw [List.filterMap_cons, placement?, nodes_link_new]
    rfl

end Chains

/-- The heads of chains that no node is in two of. -/
structure Apart (arena : Arena) (heads : List Nat) : Prop where
  inside : ∀ head ∈ heads, head < arena.nodes.size
  nodup : heads.Nodup
  disjoint : ∀ a ∈ heads, ∀ b ∈ heads, a ≠ b → ∀ id ∈ arena.path a, id ∉ arena.path b

namespace Apart

variable {heads : List Nat} {head tail : Nat}

theorem leads (h : arena.Apart heads) (hm : head ∈ heads) :
    arena.Leads head (arena.path head) :=
  leads_path (h.inside head hm)

theorem link_of_ne (placement : Placement) (h : arena.Apart heads) (hm : head ∈ heads)
    {target : Nat} (htarget : target ∈ heads) (ht : arena.tail? target = some tail)
    (hne : head ≠ target) : ∀ i ∈ arena.path head,
      (link placement arena tail).nodes[i]? = arena.nodes[i]? := by
  intro i hi
  refine nodes_link_of_ne placement arena tail ((h.leads hm).lt_size hi) ?_
  rintro rfl
  exact h.disjoint head hm target htarget hne _ hi (List.mem_of_getLast? ht)

/-- Linking a block below one of the chains makes that chain longer and keeps them apart. -/
theorem link (placement : Placement) (h : arena.Apart heads) (hm : head ∈ heads)
    (ht : arena.tail? head = some tail) :
    (Arena.link placement arena tail).Apart heads ∧
    (Arena.link placement arena tail).path head = arena.path head ++ [arena.nodes.size] ∧
    (Arena.link placement arena tail).chain head = arena.chain head ++ [placement] ∧
    ∀ other ∈ heads, other ≠ head →
      (Arena.link placement arena tail).path other = arena.path other ∧
        (Arena.link placement arena tail).chain other = arena.chain other := by
  have hpath := ((h.leads hm).link placement ht).path_eq
  have hchain := chain_link placement (h.leads hm) ht
  have hothers : ∀ other ∈ heads, other ≠ head →
      (Arena.link placement arena tail).path other = arena.path other ∧
        (Arena.link placement arena tail).chain other = arena.chain other := by
    intro other ho hne
    have hsame := h.link_of_ne placement ho hm ht hne
    exact ⟨((h.leads ho).congr hsame).path_eq, chain_congr (h.leads ho) hsame⟩
  refine ⟨⟨fun a ha => ?_, h.nodup, fun a ha b hb hne id hia hib => ?_⟩, hpath, hchain, hothers⟩
  · have := h.inside a ha
    simp only [Arena.link, Array.size_push, Array.size_modify]
    omega
  · have hnew {a : Nat} (ha : a ∈ heads) : arena.nodes.size ∉ arena.path a := fun hmem =>
      Nat.lt_irrefl _ ((h.leads ha).lt_size hmem)
    by_cases hah : a = head
    · subst hah
      rw [hpath, List.mem_append, List.mem_singleton] at hia
      rw [(hothers b hb (Ne.symm hne)).1] at hib
      rcases hia with hia | rfl
      · exact h.disjoint a ha b hb hne id hia hib
      · exact hnew hb hib
    · rw [(hothers a ha hah).1] at hia
      by_cases hbh : b = head
      · subst hbh
        rw [hpath, List.mem_append, List.mem_singleton] at hib
        rcases hib with hib | rfl
        · exact h.disjoint a ha b hb hne id hia hib
        · exact hnew ha hia
      · rw [(hothers b hb hbh).1] at hib
        exact h.disjoint a ha b hb hne id hia hib

/-- Linking one block below several chains makes just these longer. -/
theorem linkAll (placement : Placement) {targets tails : List Nat} (h : arena.Apart heads)
    (hm : ∀ target ∈ targets, target ∈ heads) (hd : targets.Nodup)
    (ht : targets.map arena.tail? = tails.map some) :
    (arena.linkAll placement tails).Apart heads ∧
    ∀ head ∈ heads, (arena.linkAll placement tails).chain head =
      if head ∈ targets then arena.chain head ++ [placement] else arena.chain head := by
  induction targets generalizing arena tails with
  | nil =>
    obtain rfl : tails = [] := by simpa using ht.symm
    exact ⟨h, fun head _ => by simp [Arena.linkAll]⟩
  | cons target targets ih =>
    cases tails with
    | nil => simp at ht
    | cons tail tails =>
      obtain ⟨htail, htails⟩ := List.cons.inj ht
      obtain ⟨hnot, hd⟩ := List.nodup_cons.1 hd
      obtain ⟨hapart, -, hchain, hothers⟩ := h.link placement (hm target (by simp)) htail
      have hlater : ∀ other ∈ targets, other ∈ heads ∧ other ≠ target := fun other hmem =>
        ⟨hm other (by simp [hmem]), fun he => hnot (he ▸ hmem)⟩
      have htails' : targets.map (Arena.link placement arena tail).tail? = tails.map some := by
        rw [← htails]
        apply List.map_congr_left
        intro other hmem
        obtain ⟨hhead, hne⟩ := hlater other hmem
        rw [tail?, tail?, (hothers other hhead hne).1]
      obtain ⟨hall, hchains⟩ := ih hapart (fun other hmem => (hlater other hmem).1) hd htails'
      refine ⟨hall, fun head hhead => ?_⟩
      rw [Arena.linkAll, List.foldl_cons]
      refine (hchains head hhead).trans ?_
      by_cases he : head = target
      · subst he
        rw [if_neg hnot, if_pos List.mem_cons_self, hchain]
      · rw [(hothers head hhead he).2]
        simp [he]

/-- A new head is apart from the old ones, whose chains stay as they are. -/
theorem addHead (placement : Placement) (h : arena.Apart heads) :
    (arena.addHead placement).Apart (heads ++ [arena.nodes.size]) ∧
    (arena.addHead placement).chain arena.nodes.size = [placement] ∧
    ∀ head ∈ heads, (arena.addHead placement).chain head = arena.chain head := by
  have hhead : (arena.addHead placement).nodes[arena.nodes.size]? =
      some { placement with next := none } := by
    rw [Arena.addHead, Array.getElem?_push, if_pos rfl]
  have hnew : (arena.addHead placement).Leads arena.nodes.size [arena.nodes.size] :=
    .last hhead rfl
  have hold : ∀ head ∈ heads, ∀ i ∈ arena.path head,
      (arena.addHead placement).nodes[i]? = arena.nodes[i]? := by
    intro head hm i hi
    have hlt := (h.leads hm).lt_size hi
    rw [Arena.addHead, Array.getElem?_push, if_neg (Nat.ne_of_lt hlt)]
  have hpath : ∀ head ∈ heads, (arena.addHead placement).path head = arena.path head :=
    fun head hm => ((h.leads hm).congr (hold head hm)).path_eq
  -- the new node has a number that is on no old path
  have hfresh : ∀ head ∈ heads, arena.nodes.size ∉ arena.path head := fun head hm hi =>
    Nat.lt_irrefl _ ((h.leads hm).lt_size hi)
  refine ⟨⟨fun head hm => ?_, ?_, fun a ha b hb hne id hia hib => ?_⟩, ?_, fun head hm => ?_⟩
  · rw [Arena.addHead, Array.size_push]
    rcases List.mem_append.1 hm with hm | hm
    · exact Nat.lt_succ_of_lt (h.inside head hm)
    · rw [List.mem_singleton.1 hm]
      exact Nat.lt_succ_self _
  · refine List.nodup_append.2 ⟨h.nodup, by simp, fun a ha b hb => ?_⟩
    rw [List.mem_singleton.1 hb]
    exact Nat.ne_of_lt (h.inside a ha)
  · rw [List.mem_append, List.mem_singleton] at ha hb
    rcases ha with ha | rfl
    · rw [hpath a ha] at hia
      rcases hb with hb | rfl
      · rw [hpath b hb] at hib
        exact h.disjoint a ha b hb hne id hia hib
      · rw [hnew.path_eq, List.mem_singleton] at hib
        exact hfresh a ha (hib ▸ hia)
    · rcases hb with hb | rfl
      · rw [hnew.path_eq, List.mem_singleton] at hia
        rw [hpath b hb] at hib
        exact hfresh b hb (hia ▸ hib)
      · exact hne rfl
  · rw [chain_of_leads hnew, List.filterMap_cons, placement?, hhead]
    rfl
  · exact chain_congr (h.leads hm) (hold head hm)

end Apart

section Append

variable (arena other) (shift : Nat)

theorem nodes_append_left (hlt : id < arena.nodes.size) :
    (arena.append other shift).nodes[id]? = arena.nodes[id]? := by
  rw [append, Array.getElem?_append, if_pos hlt]

theorem nodes_append_right (id : Nat) :
    (arena.append other shift).nodes[id + arena.nodes.size]? =
      other.nodes[id]?.map (Node.renumber arena.blocks.size arena.nodes.size shift) := by
  rw [append, Array.getElem?_append, if_neg (by omega), Nat.add_sub_cancel, Array.getElem?_map]

theorem placement?_append_right (id : Nat) :
    (arena.append other shift).placement? (id + arena.nodes.size) =
      (other.placement? id).map (Placement.renumber arena.blocks.size shift) := by
  rw [placement?, placement?, nodes_append_right, Option.map_map, Option.map_map]
  rfl

theorem Leads.append_right (h : other.Leads id ids) :
    (arena.append other shift).Leads (id + arena.nodes.size)
      (ids.map (· + arena.nodes.size)) := by
  have hmoved {id : Nat} {node : Node} (hn : other.nodes[id]? = some node) :
      (arena.append other shift).nodes[id + arena.nodes.size]? =
        some (Node.renumber arena.blocks.size arena.nodes.size shift node) := by
    rw [nodes_append_right, hn]
    rfl
  induction h with
  | @last id node hn hl =>
    refine .last (hmoved hn) ?_
    rw [Node.renumber, hl]
    rfl
  | @step id next node rest hn hl hr ih =>
    refine .step (hmoved hn) ?_ ih
    rw [Node.renumber, hl]
    rfl

theorem chain_append_right (h : other.Leads id ids) :
    (arena.append other shift).chain (id + arena.nodes.size) =
      (other.chain id).map (Placement.renumber arena.blocks.size shift) := by
  rw [chain_of_leads (h.append_right arena other shift), chain_of_leads h, List.filterMap_map,
    List.map_filterMap]
  apply List.filterMap_congr
  intro i hi
  exact placement?_append_right arena other shift i

/-- The chains of two arenas stay apart and as they are when one takes over the other. -/
theorem Apart.append {heads others : List Nat} (h : arena.Apart heads) (ho : other.Apart others) :
    (arena.append other shift).Apart (heads ++ others.map (· + arena.nodes.size)) ∧
    (∀ head ∈ heads, (arena.append other shift).chain head = arena.chain head) ∧
    ∀ head ∈ others, (arena.append other shift).chain (head + arena.nodes.size) =
      (other.chain head).map (Placement.renumber arena.blocks.size shift) := by
  have hold : ∀ head ∈ heads, ∀ i ∈ arena.path head,
      (arena.append other shift).nodes[i]? = arena.nodes[i]? := fun head hm i hi =>
    nodes_append_left arena other shift ((h.leads hm).lt_size hi)
  have hpath : ∀ head ∈ heads, (arena.append other shift).path head = arena.path head :=
    fun head hm => ((h.leads hm).congr (hold head hm)).path_eq
  have hmoved : ∀ head ∈ others, (arena.append other shift).path (head + arena.nodes.size) =
      (other.path head).map (· + arena.nodes.size) :=
    fun head hm => ((ho.leads hm).append_right arena other shift).path_eq
  have hlt : ∀ head ∈ heads, ∀ i ∈ arena.path head, i < arena.nodes.size :=
    fun head hm i hi => (h.leads hm).lt_size hi
  refine ⟨⟨fun head hm => ?_, ?_, fun a ha b hb hne id hia hib => ?_⟩,
    fun head hm => chain_congr (h.leads hm) (hold head hm),
    fun head hm => chain_append_right arena other shift (ho.leads hm)⟩
  · rw [Arena.append, Array.size_append, Array.size_map]
    rcases List.mem_append.1 hm with hm | hm
    · have := h.inside head hm
      omega
    · obtain ⟨old, hold, rfl⟩ := List.mem_map.1 hm
      have := ho.inside old hold
      omega
  · have hmap : (others.map (· + arena.nodes.size)).Nodup :=
      List.pairwise_map.2 (List.Pairwise.imp (fun hne he => hne (Nat.add_right_cancel he)) ho.nodup)
    refine List.nodup_append.2 ⟨h.nodup, hmap, fun a ha b hb => ?_⟩
    obtain ⟨old, -, rfl⟩ := List.mem_map.1 hb
    have := h.inside a ha
    omega
  -- the old nodes have smaller numbers than those that were moved behind them
  · rw [List.mem_append] at ha hb
    rcases ha with ha | ha
    · rw [hpath a ha] at hia
      have := hlt a ha id hia
      rcases hb with hb | hb
      · rw [hpath b hb] at hib
        exact h.disjoint a ha b hb hne id hia hib
      · obtain ⟨old, hold, rfl⟩ := List.mem_map.1 hb
        rw [hmoved old hold, List.mem_map] at hib
        obtain ⟨i, -, rfl⟩ := hib
        omega
    · obtain ⟨old, hold, rfl⟩ := List.mem_map.1 ha
      rw [hmoved old hold, List.mem_map] at hia
      obtain ⟨i, hi, rfl⟩ := hia
      rcases hb with hb | hb
      · rw [hpath b hb] at hib
        have := hlt b hb _ hib
        omega
      · obtain ⟨old', hold', rfl⟩ := List.mem_map.1 hb
        rw [hmoved old' hold', List.mem_map] at hib
        obtain ⟨j, hj, he⟩ := hib
        obtain rfl := Nat.add_right_cancel he
        exact ho.disjoint old hold old' hold' (fun he => hne (he ▸ rfl)) j hi hj

end Append

section Blocks

theorem path_eq_of_nodes (h : other.nodes = arena.nodes) (id : Nat) :
    other.path id = arena.path id := by
  by_cases hlt : id < arena.nodes.size
  · exact ((leads_path hlt).congr fun i _ => by rw [h]).path_eq
  · have hnone : arena.nodes[id]? = none := Array.getElem?_eq_none (Nat.le_of_not_lt hlt)
    rw [path_of_none hnone, path_of_none (h ▸ hnone)]

theorem chain_eq_of_nodes (h : other.nodes = arena.nodes) (id : Nat) :
    other.chain id = arena.chain id := by
  have hplacement : other.placement? = arena.placement? := by
    funext i
    rw [placement?, placement?, h]
  rw [chain, chain, path_eq_of_nodes h, hplacement]

theorem Apart.of_nodes {heads : List Nat} (ha : arena.Apart heads)
    (h : other.nodes = arena.nodes) : other.Apart heads := by
  refine ⟨fun head hm => h ▸ ha.inside head hm, ha.nodup, fun a hma b hmb hne id hia hib => ?_⟩
  rw [path_eq_of_nodes h] at hia hib
  exact ha.disjoint a hma b hmb hne id hia hib

@[simp] theorem chain_addBlock (arena : Arena) (block : Block) (id : Nat) :
    (arena.addBlock block).chain id = arena.chain id :=
  chain_eq_of_nodes (show (arena.addBlock block).nodes = arena.nodes from rfl) id

@[simp] theorem chain_setBlock (arena : Arena) (index : Nat) (block : Block) (id : Nat) :
    (arena.setBlock index block).chain id = arena.chain id :=
  chain_eq_of_nodes (show (arena.setBlock index block).nodes = arena.nodes from rfl) id

theorem blocks_linkAll (arena : Arena) (placement : Placement) (tails : List Nat) :
    (arena.linkAll placement tails).blocks = arena.blocks := by
  induction tails generalizing arena with
  | nil => rfl
  | cons tail tails ih => exact ih (link placement arena tail)

end Blocks

end TypedTable.Arena
