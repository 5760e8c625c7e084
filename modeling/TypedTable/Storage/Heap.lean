import TypedTable.Scalar

/-!
# Shared buffers

Buffers that several blocks and their caller hold together live in a heap, one pool for each
scalar type. A handle names a cell array; it never grows, shrinks or goes away.
-/

set_option autoImplicit false

namespace TypedTable

structure SharedBuffer (type : ScalarType) where
  index : Nat
deriving DecidableEq, Repr

structure Heap where
  ints : Array (Array Int64) := #[]
  floats : Array (Array Float32) := #[]
  doubles : Array (Array Float) := #[]
  bools : Array (Array UInt8) := #[]
  strs : Array (Array String) := #[]

namespace Heap

def pool (heap : Heap) : (type : ScalarType) → Array (Array type.Carrier)
  | .int => heap.ints
  | .float => heap.floats
  | .double => heap.doubles
  | .bool => heap.bools
  | .str => heap.strs

def withPool (heap : Heap) : (type : ScalarType) → Array (Array type.Carrier) → Heap
  | .int, pool => { heap with ints := pool }
  | .float, pool => { heap with floats := pool }
  | .double, pool => { heap with doubles := pool }
  | .bool, pool => { heap with bools := pool }
  | .str, pool => { heap with strs := pool }

/-- Puts a new buffer into the heap; its handle is one that no earlier call returned. -/
def allocate (heap : Heap) {type : ScalarType} (cells : Array type.Carrier) :
    SharedBuffer type × Heap :=
  (⟨(heap.pool type).size⟩, heap.withPool type ((heap.pool type).push cells))

def contents (heap : Heap) {type : ScalarType} (buffer : SharedBuffer type) :
    Array type.Carrier :=
  (heap.pool type).getD buffer.index #[]

def write (heap : Heap) {type : ScalarType} (buffer : SharedBuffer type) (index : Nat)
    (value : type.Carrier) : Heap :=
  heap.withPool type
    ((heap.pool type).setIfInBounds buffer.index
      ((heap.contents buffer).setIfInBounds index value))

@[simp] theorem pool_withPool (heap : Heap) (type : ScalarType)
    (pool : Array (Array type.Carrier)) : (heap.withPool type pool).pool type = pool := by
  cases type <;> rfl

theorem pool_withPool_of_ne (heap : Heap) {type other : ScalarType}
    (pool : Array (Array type.Carrier)) (h : type ≠ other) :
    (heap.withPool type pool).pool other = heap.pool other := by
  cases type <;> cases other <;> first | rfl | exact absurd rfl h

theorem size_contents_write (heap : Heap) {type other : ScalarType}
    (buffer : SharedBuffer type) (reader : SharedBuffer other) (index : Nat)
    (value : type.Carrier) :
    ((heap.write buffer index value).contents reader).size = (heap.contents reader).size := by
  by_cases h : type = other
  · subst h
    by_cases hb : buffer.index = reader.index
    · by_cases hr : buffer.index < (heap.pool type).size
      · simp [write, contents, ← hb, hr, Array.getD]
      · simp [write, contents, ← hb, hr, Array.getD]
    · simp [write, contents, Array.getD_eq_getD_getElem?, hb]
  · simp [write, contents, pool_withPool_of_ne heap _ h]

end Heap

end TypedTable
