import TypedTable.Proofs.Outcome
import TypedTable.Storage.Block

/-!
# Filled blocks

A block that was made has cells, and its storage has all of them. No write makes a storage smaller,
so a filled block stays filled whatever happens to the heap.
-/

set_option autoImplicit false

namespace TypedTable

namespace Heap

def GrowsTo (heap later : Heap) : Prop :=
  ∀ (type : ScalarType) (buffer : SharedBuffer type),
    (heap.contents buffer).size ≤ (later.contents buffer).size

theorem growsTo_write (heap : Heap) {type : ScalarType} (buffer : SharedBuffer type)
    (index : Nat) (value : type.Carrier) : heap.GrowsTo (heap.write buffer index value) :=
  fun _ reader => Nat.le_of_eq (heap.size_contents_write buffer reader index value).symm

variable {type other : ScalarType}

theorem contents_write_self (heap : Heap) (buffer : SharedBuffer type) (index : Nat)
    (value : type.Carrier) :
    (heap.write buffer index value).contents buffer =
      (heap.contents buffer).setIfInBounds index value := by
  by_cases hb : buffer.index < (heap.pool type).size
  · simp [write, contents, Array.getD_eq_getD_getElem?, hb]
  · simp [write, contents, Array.getD_eq_getD_getElem?, hb]

/-- Buffers of one index are different if their types are. -/
theorem contents_write_of_ne (heap : Heap) {buffer : SharedBuffer type}
    {reader : SharedBuffer other} (index : Nat) (value : type.Carrier)
    (h : (⟨other, reader⟩ : (type : ScalarType) × SharedBuffer type) ≠ ⟨type, buffer⟩) :
    (heap.write buffer index value).contents reader = heap.contents reader := by
  by_cases ht : type = other
  · subst ht
    have hne : buffer.index ≠ reader.index := by
      intro he
      obtain ⟨place⟩ := buffer
      obtain ⟨found⟩ := reader
      obtain rfl : place = found := he
      exact h rfl
    simp [write, contents, Array.getD_eq_getD_getElem?, hne]
  · exact congrArg (·.getD reader.index #[]) (pool_withPool_of_ne heap _ ht)

theorem contents_allocate (heap : Heap) (cells : Array type.Carrier)
    {reader : SharedBuffer other} (h : reader.index < (heap.pool other).size) :
    (heap.allocate cells).2.contents reader = heap.contents reader := by
  by_cases ht : type = other
  · subst ht
    simp [allocate, contents, Array.getD_eq_getD_getElem?, Array.getElem?_push,
      Nat.ne_of_lt h]
  · exact congrArg (·.getD reader.index #[]) (pool_withPool_of_ne heap _ ht)

theorem growsTo_allocate (heap : Heap) (cells : Array type.Carrier) :
    heap.GrowsTo (heap.allocate cells).2 := by
  intro other buffer
  by_cases h : buffer.index < (heap.pool other).size
  · exact Nat.le_of_eq (congrArg Array.size (heap.contents_allocate cells h).symm)
  · simp [contents, Array.getD, h]

end Heap

namespace Storage

variable {type : ScalarType}

theorem size_cells_truncate (heap : Heap) {size : Nat} (storage : Storage type)
    (h : size ≤ (storage.cells heap).size) :
    size ≤ ((storage.truncate size).cells heap).size := by
  cases storage with
  | copied cells =>
    have hmin : size ≤ min size cells.size := Nat.le_min.2 ⟨Nat.le_refl _, h⟩
    simpa [truncate, Storage.cells] using hmin
  | adopted cells =>
    have hmin : size ≤ min size cells.size := Nat.le_min.2 ⟨Nat.le_refl _, h⟩
    simpa [truncate, Storage.cells] using hmin
  | borrowed buffer => exact h

theorem size_cells_le {heap later : Heap} (h : heap.GrowsTo later) (storage : Storage type) :
    (storage.cells heap).size ≤ (storage.cells later).size := by
  cases storage with
  | copied cells => exact Nat.le_refl _
  | adopted cells => exact Nat.le_refl _
  | borrowed buffer => exact h type buffer

theorem size_contents_write (heap : Heap) (index : Nat) (value : type.Carrier)
    (storage : Storage type) {other : ScalarType} (reader : SharedBuffer other) :
    ((storage.write heap index value).1.contents reader).size = (heap.contents reader).size := by
  cases storage with
  | copied cells => rfl
  | adopted cells => rfl
  | borrowed buffer => exact heap.size_contents_write buffer reader index value

theorem growsTo_write (heap : Heap) (index : Nat) (value : type.Carrier) (storage : Storage type) :
    heap.GrowsTo (storage.write heap index value).1 :=
  fun _ reader => Nat.le_of_eq (storage.size_contents_write heap index value reader).symm

theorem size_cells_write (heap : Heap) (index : Nat) (value : type.Carrier)
    (storage : Storage type) :
    ((storage.write heap index value).2.cells (storage.write heap index value).1).size =
      (storage.cells heap).size := by
  cases storage with
  | copied cells => simp [write, Storage.cells]
  | adopted cells => simp [write, Storage.cells]
  | borrowed buffer => exact heap.size_contents_write buffer buffer index value

theorem ownership_write (heap : Heap) (index : Nat) (value : type.Carrier)
    (storage : Storage type) :
    (storage.write heap index value).2.ownership = storage.ownership := by
  cases storage <;> rfl

/-- What is kept of cells of its own is the same whatever the heap. -/
theorem getElem?_cells_truncate (heap : Heap) {storage : Storage type}
    (ho : storage.ownership ≠ .borrowed) {index size : Nat} (h : index < size) :
    ((storage.truncate size).cells heap)[index]? = (storage.cells {})[index]? := by
  have htake (cells : Array type.Carrier) : (cells.take size)[index]? = cells[index]? := by
    rw [Array.take_eq_extract, Array.getElem?_extract]
    split
    · rw [Nat.zero_add]
    next hle =>
      rw [Array.getElem?_eq_none]
      omega
  cases storage with
  | copied cells => exact htake cells
  | adopted cells => exact htake cells
  | borrowed buffer => exact absurd rfl ho

theorem ownership_truncate (size : Nat) (storage : Storage type) :
    (storage.truncate size).ownership = storage.ownership := by
  cases storage <;> rfl

end Storage

namespace Dense

variable {type : ScalarType} {heap : Heap} {dense : Dense type}

structure Filled (heap : Heap) (dense : Dense type) : Prop where
  rows_pos : 0 < dense.rows
  cols_pos : 0 < dense.cols
  stored : dense.rows * dense.cols ≤ (dense.cells heap).size

theorem Filled.grow {later : Heap} (h : dense.Filled heap) (hg : heap.GrowsTo later) :
    dense.Filled later :=
  ⟨h.rows_pos, h.cols_pos, Nat.le_trans h.stored (dense.storage.size_cells_le hg)⟩

/-- What is made has the dimensions asked for and takes over the storage. -/
theorem make_eq_ok {rows cols : Nat} {order : Order} {storage : Storage type}
    (h : make heap rows cols order storage = .ok dense) :
    dense = { rows := rows, cols := cols, order := order,
              storage := storage.truncate (rows * cols) } ∧
      dense.Filled heap ∧ rows * cols ≤ (storage.cells heap).size := by
  unfold make at h
  split at h
  · cases h
  next hpos =>
    split at h
    · cases h
    · split at h
      · cases h
      next hsize =>
        cases h
        have hle := Nat.le_of_not_lt hsize
        exact ⟨rfl, ⟨by dsimp only; omega, by dsimp only; omega,
          storage.size_cells_truncate heap hle⟩, hle⟩

theorem shape_of_make {rows cols : Nat} {order : Order} {storage : Storage type}
    (h : make heap rows cols order storage = .ok dense) :
    dense.rows = rows ∧ dense.cols = cols ∧ dense.storage.ownership = storage.ownership := by
  obtain ⟨rfl, -, -⟩ := make_eq_ok h
  exact ⟨rfl, rfl, storage.ownership_truncate _⟩

/-- Whether there is a block depends on its input only by the number of cells. -/
theorem make_of_make {rows cols : Nat} {order : Order} {storage storage' : Storage type}
    (h : make heap rows cols order storage = .ok dense) (order' : Order)
    (hsize : rows * cols ≤ (storage'.cells heap).size) :
    ∃ other, make heap rows cols order' storage' = .ok other ∧ other.cols = dense.cols := by
  have hcols := (shape_of_make h).2.1
  unfold make at h ⊢
  split at h
  · cases h
  next hempty =>
    split at h
    · cases h
    next hlimit =>
      rw [if_neg hempty, if_neg hlimit, if_neg (Nat.not_lt.2 hsize)]
      exact ⟨_, rfl, hcols.symm⟩

theorem checkCell_eq_ok {row col : Nat} {u : Unit} :
    dense.checkCell row col = .ok u ↔ row < dense.rows ∧ col < dense.cols := by
  unfold checkCell
  split
  · simp only [reduceCtorEq, false_iff]
    omega
  · split
    · simp only [reduceCtorEq, false_iff]
      omega
    · simp only [true_iff]
      omega

theorem Filled.cell?_isSome (h : dense.Filled heap) {row col : Nat} (hr : row < dense.rows)
    (hc : col < dense.cols) : (dense.cell? heap row col).isSome = true := by
  have hlt := dense.order.offset_lt hr hc
  have hsize : dense.offset row col < (dense.cells heap).size := Nat.lt_of_lt_of_le hlt h.stored
  simp [cell?, hsize]

theorem Filled.get_eq (h : dense.Filled heap) {row col : Nat} (hr : row < dense.rows)
    (hc : col < dense.cols) :
    dense.get heap row col = .ok ((dense.cell? heap row col).getD type.blank) := by
  obtain ⟨value, hvalue⟩ := Option.isSome_iff_exists.1 (h.cell?_isSome hr hc)
  rw [get, checkCell_eq_ok (u := ()) |>.2 ⟨hr, hc⟩, ok_bind, hvalue]
  rfl

theorem leaves_set {type : ScalarType} {heap : Heap} {dense : Dense type} {row col : Nat}
    {value : type.Carrier} : Leaves (heap, dense) (dense.set heap row col value) :=
  .check fun _ _ => .ok _

end Dense

namespace Block

def Filled (heap : Heap) (block : Block) : Prop := block.dense.Filled heap

structure SameShape (block other : Block) : Prop where
  type : other.type = block.type
  rows : other.rows = block.rows
  cols : other.cols = block.cols

theorem SameShape.refl (block : Block) : block.SameShape block := ⟨rfl, rfl, rfl⟩

theorem typed_eq_ok {block : Block} {type : ScalarType} {dense : Dense type}
    (h : block.typed type = .ok dense) : block = ⟨type, dense⟩ := by
  obtain ⟨found, cells⟩ := block
  unfold typed at h
  split at h
  next heq =>
    obtain rfl : found = type := heq
    cases h
    rfl
  · cases h

theorem typed_self (type : ScalarType) (dense : Dense type) :
    (Block.mk type dense).typed type = .ok dense := by
  simp [typed]

theorem typed_of_ne {block : Block} {type : ScalarType} (h : type ≠ block.type) :
    block.typed type = .error (.typeMismatch (.block block.type type)) := by
  rw [typed, dif_neg h.symm]

theorem get_self {heap : Heap} (block : Block) (h : block.Filled heap) {row col : Nat}
    (hr : row < block.rows) (hc : col < block.cols) :
    block.get heap block.type row col =
      .ok ((block.dense.cell? heap row col).getD block.type.blank) := by
  obtain ⟨type, dense⟩ := block
  rw [get, typed_self, ok_bind]
  exact Dense.Filled.get_eq h hr hc

theorem get_of_ne (heap : Heap) {block : Block} {type : ScalarType} (h : type ≠ block.type)
    (row col : Nat) :
    block.get heap type row col = .error (.typeMismatch (.block block.type type)) := by
  rw [get, typed_of_ne h]
  rfl

/-- Writing a cell keeps the shape of a block and loses no cell of any. -/
theorem set_eq_ok {heap later : Heap} {block written : Block} {type : ScalarType} {row col : Nat}
    {value : type.Carrier} (h : block.set heap type row col value = .ok (later, written)) :
    ∃ dense : Dense type, block = ⟨type, dense⟩ ∧ row < dense.rows ∧ col < dense.cols ∧
      later = (dense.storage.write heap (dense.offset row col) value).1 ∧
      written = ⟨type, { dense with
        storage := (dense.storage.write heap (dense.offset row col) value).2 }⟩ := by
  unfold set at h
  obtain ⟨dense, htyped, h⟩ := refuse_bind_eq_ok_iff.1 h
  obtain ⟨result, hset, h⟩ := within_bind_eq_ok_iff.1 h
  unfold Dense.set at hset
  obtain ⟨u, hcell, hset⟩ := refuse_bind_eq_ok_iff.1 hset
  cases hset
  cases h
  obtain ⟨hr, hc⟩ := Dense.checkCell_eq_ok.1 hcell
  exact ⟨dense, typed_eq_ok htyped, hr, hc, rfl, rfl⟩

theorem leaves_set {heap : Heap} {block : Block} {type : ScalarType} {row col : Nat}
    {value : type.Carrier} : Leaves (heap, block) (block.set heap type row col value) := by
  refine .check fun dense htyped => ?_
  obtain rfl := typed_eq_ok htyped
  exact (Dense.leaves_set.within _).bind fun _ _ => .ok _

end Block

end TypedTable
