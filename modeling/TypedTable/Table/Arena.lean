import TypedTable.Storage.Block

/-!
# Blocks and the chains through them

The blocks of a table lie in an arena. A chain runs from node to node, each with a block, from the
top rows of some columns to the bottom ones. A block that continues several chains is stored once
and has a node in each of them.
-/

set_option autoImplicit false

namespace TypedTable

structure Placement where
  /-- Index of the block in the arena. -/
  block : Nat
  /-- Column of the table that is the block's first one. -/
  offset : Nat
deriving DecidableEq, Repr

def Placement.renumber (blocks shift : Nat) (placement : Placement) : Placement :=
  { block := placement.block + blocks, offset := placement.offset + shift }

structure Node extends Placement where
  /-- The node of the same columns and the next rows. -/
  next : Option Nat := none
deriving DecidableEq, Repr

/-- A link always leads to a node that was added later. -/
structure Arena where
  blocks : Array Block := #[]
  nodes : Array Node := #[]
  forward : ∀ (id : Nat) (node : Node) (next : Nat), nodes[id]? = some node →
    node.next = some next → id < next ∧ next < nodes.size := by simp

namespace Arena

def path (arena : Arena) (id : Nat) : List Nat :=
  match _hn : arena.nodes[id]? with
  | none => []
  | some node =>
    match _hl : node.next with
    | none => [id]
    | some next => id :: arena.path next
termination_by arena.nodes.size - id
decreasing_by
  have := arena.forward id node next _hn _hl
  omega

def placement? (arena : Arena) (id : Nat) : Option Placement :=
  arena.nodes[id]?.map (·.toPlacement)

def chain (arena : Arena) (head : Nat) : List Placement :=
  (arena.path head).filterMap arena.placement?

def tail? (arena : Arena) (head : Nat) : Option Nat := (arena.path head).getLast?

def block (arena : Arena) (index : Nat) : Except TableFault Block :=
  match arena.blocks[index]? with
  | some block => .ok block
  | none => .error (.internal (.danglingBlock index))

/-- The scalar type of a chain is that of its first block. -/
def chainType (arena : Arena) (head : Nat) : Except TableFault ScalarType :=
  match arena.placement? head with
  | some placement => do return (← arena.block placement.block).type
  | none => .error (.internal (.danglingNode head))

def addBlock (arena : Arena) (block : Block) : Arena :=
  { arena with blocks := arena.blocks.push block }

def setBlock (arena : Arena) (index : Nat) (block : Block) : Arena :=
  { arena with blocks := arena.blocks.setIfInBounds index block }

def addHead (arena : Arena) (placement : Placement) : Arena where
  blocks := arena.blocks
  nodes := arena.nodes.push { placement with next := none }
  forward id node next hn hl := by
    rw [Array.getElem?_push] at hn
    split at hn
    · obtain rfl := Option.some.inj hn
      simp at hl
    · have := arena.forward id node next hn hl
      rw [Array.size_push]
      omega

def link (placement : Placement) (arena : Arena) (tail : Nat) : Arena where
  blocks := arena.blocks
  nodes := (arena.nodes.modify tail fun node =>
    { node with next := some arena.nodes.size }).push { placement with next := none }
  forward id node next hn hl := by
    rw [Array.getElem?_push, Array.size_modify] at hn
    rw [Array.size_push, Array.size_modify]
    split at hn
    · obtain rfl := Option.some.inj hn
      simp at hl
    · rw [Array.getElem?_modify] at hn
      split at hn
      · obtain ⟨old, hold, rfl⟩ := Option.map_eq_some_iff.1 hn
        obtain ⟨hlt, -⟩ := Array.getElem?_eq_some_iff.1 hold
        obtain rfl := Option.some.inj hl
        omega
      · have := arena.forward id node next hn hl
        omega

def linkAll (arena : Arena) (placement : Placement) (tails : List Nat) : Arena :=
  tails.foldl (link placement) arena

/-- A node whose block and successor have `blocks` and `nodes` others put before them, and whose
columns have moved by `shift`. -/
def Node.renumber (blocks nodes shift : Nat) (node : Node) : Node :=
  { node.toPlacement.renumber blocks shift with next := node.next.map (· + nodes) }

def append (arena other : Arena) (shift : Nat) : Arena where
  blocks := arena.blocks ++ other.blocks
  nodes := arena.nodes ++
    other.nodes.map (Node.renumber arena.blocks.size arena.nodes.size shift)
  forward id node next hn hl := by
    rw [Array.size_append, Array.size_map]
    rw [Array.getElem?_append] at hn
    split at hn
    · have := arena.forward id node next hn hl
      omega
    · rw [Array.getElem?_map] at hn
      obtain ⟨moved, hmoved, rfl⟩ := Option.map_eq_some_iff.1 hn
      obtain ⟨old, hold, rfl⟩ := Option.map_eq_some_iff.1 hl
      have := other.forward _ moved old hmoved hold
      omega

end Arena

end TypedTable
