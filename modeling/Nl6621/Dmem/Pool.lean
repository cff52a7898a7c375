import Mathlib.Logic.Function.Basic
import Nl6621.Lib.Memory

/-!
# The dynamic memory pools of `os_dmem.c`

A pool is a range of memory that is tiled by blocks, each with a header of
`DM_OVERHEAD` bytes in front of its payload.  The headers form a circular list in
both directions, which a small trailer block at the end of the pool closes.
`OS_GetMem` walks this list from the search pointer of the pool, takes the first
free block that is large enough and splits it if enough remains; `OS_FreeMem` puts a
block back and merges it with its neighbours.

Memory is one cell for each address.  A header at `p` has its four fields in the
cells `p`, `p + 4`, `p + 8` and `p + 12`, so headers that overlap disturb each
other.  The control blocks of the pools lie outside of the pools and are a map of
their own.  Pointers and sizes are 32-bit numbers, and the arithmetic of the code
wraps around (`u32`, `sub32`).
-/

namespace Nl6621.Dmem

open Lib (u32 sub32)

/-- `sizeof(DM_HEADER)`, which is a multiple of `sizeof(UNSIGNED)`. -/
def DM_OVERHEAD : Nat := 16

def OS_ERR_NONE : Nat := 0
def OS_ERR_MEM_FULL : Nat := 94

/-! ### Memory -/

structure DmPcb where
  dm_start_address : Nat
  dm_pool_size : Nat
  dm_min_allocation : Nat
  dm_available : Nat
  dm_memory_list : Nat
  dm_search_ptr : Nat
deriving DecidableEq

structure Heap where
  mem : Nat → Nat
  /-- the control blocks, by address -/
  pcb : Nat → DmPcb

namespace Heap

def dm_next_memory (h : Heap) (p : Nat) : Nat := h.mem p

def dm_previous_memory (h : Heap) (p : Nat) : Nat := h.mem (p + 4)

def dm_memory_free (h : Heap) (p : Nat) : Nat := h.mem (p + 8)

def dm_memory_pool (h : Heap) (p : Nat) : Nat := h.mem (p + 12)

def store (h : Heap) (a v : Nat) : Heap := { h with mem := Function.update h.mem a v }

def setNext (h : Heap) (p v : Nat) : Heap := h.store p v

def setPrevious (h : Heap) (p v : Nat) : Heap := h.store (p + 4) v

def setFree (h : Heap) (p v : Nat) : Heap := h.store (p + 8) v

def setPool (h : Heap) (p v : Nat) : Heap := h.store (p + 12) v

def setPcb (h : Heap) (pool : Nat) (f : DmPcb → DmPcb) : Heap :=
  { h with pcb := Function.update h.pcb pool (f (h.pcb pool)) }

end Heap

/-! ### `OS_Create_Memory_Pool` -/

/-- Round up to a multiple of `sizeof(UNSIGNED)`. -/
def roundUp (n : Nat) : Nat := u32 (n + 3) / 4 * 4

def osCreateMemoryPool (h : Heap) (pool start_address pool_size min_allocation : Nat) : Heap :=
  let pool_size := pool_size / 4 * 4
  let h := h.setPcb pool fun _ =>
    { dm_start_address := start_address
      dm_pool_size := pool_size
      dm_min_allocation := roundUp min_allocation
      dm_available := sub32 pool_size (2 * DM_OVERHEAD)
      dm_memory_list := start_address
      dm_search_ptr := start_address }
  let header_ptr := start_address
  let h := h.setPool header_ptr pool
  let h := h.setFree header_ptr 1
  let h := h.setNext header_ptr (u32 (header_ptr + (h.pcb pool).dm_available + DM_OVERHEAD))
  let h := h.setPrevious header_ptr (h.dm_next_memory header_ptr)
  -- the trailer, which keeps the last block from being merged with the first
  let header_ptr := h.dm_next_memory header_ptr
  let h := h.setNext header_ptr start_address
  let h := h.setPrevious header_ptr start_address
  let h := h.setPool header_ptr pool
  h.setFree header_ptr 0

/-! ### `OS_GetMem` -/

/-- The size a request is adjusted to. -/
def adjust (min_allocation size : Nat) : Nat :=
  if size < min_allocation then min_allocation else roundUp size

/-- The free bytes of the block at `p`, none if it is not free. -/
def freeSize (h : Heap) (p : Nat) : Nat :=
  if h.dm_memory_free p ≠ 0 then sub32 (sub32 (h.dm_next_memory p) p) DM_OVERHEAD else 0

/-- The search from `memory_ptr`: the pointer and `free_size` when the loop is left.  The
first argument bounds its rounds. -/
def searchLoop (h : Heap) (search_ptr size : Nat) : Nat → Nat → Option (Nat × Nat)
  | 0, _ => none
  | k + 1, memory_ptr =>
    if freeSize h memory_ptr < size then
      if h.dm_next_memory memory_ptr ≠ search_ptr then
        searchLoop h search_ptr size k (h.dm_next_memory memory_ptr)
      else some (h.dm_next_memory memory_ptr, freeSize h memory_ptr)
    else some (memory_ptr, freeSize h memory_ptr)

def splitBlock (h : Heap) (pool memory_ptr size : Nat) : Heap :=
  let new_ptr := u32 (memory_ptr + size + DM_OVERHEAD)
  let h := h.setFree new_ptr 1
  let h := h.setPool new_ptr pool
  let h := h.setPrevious new_ptr memory_ptr
  let h := h.setNext new_ptr (h.dm_next_memory memory_ptr)
  let h := h.setPrevious (h.dm_next_memory new_ptr) new_ptr
  let h := h.setNext memory_ptr new_ptr
  h.setPcb pool fun p =>
    { p with dm_available := sub32 (sub32 p.dm_available size) DM_OVERHEAD }

/-- The block found is handed out, with what remains of it split off. -/
def takeBlock (h : Heap) (pool memory_ptr size free_size : Nat) : Heap :=
  let h :=
    if u32 (size + DM_OVERHEAD + (h.pcb pool).dm_min_allocation) ≤ free_size then
      splitBlock h pool memory_ptr size
    else h.setPcb pool fun p => { p with dm_available := sub32 p.dm_available free_size }
  let h := h.setFree memory_ptr 0
  if (h.pcb pool).dm_search_ptr = memory_ptr then
    h.setPcb pool fun p => { p with dm_search_ptr := h.dm_next_memory memory_ptr }
  else h

/-- The heap, the status and the pointer returned; nothing if the search does not end.
A list of more blocks than the pool has bytes is none of `OS_Create_Memory_Pool`. -/
def osGetMem (h : Heap) (pool size : Nat) : Option (Heap × Nat × Nat) :=
  let size := adjust (h.pcb pool).dm_min_allocation size
  let search_ptr := (h.pcb pool).dm_search_ptr
  (searchLoop h search_ptr size (h.pcb pool).dm_pool_size search_ptr).map fun r =>
    if size ≤ r.2 then (takeBlock h pool r.1 size r.2, OS_ERR_NONE, u32 (r.1 + DM_OVERHEAD))
    else (h, OS_ERR_MEM_FULL, 0)

/-! ### `OS_FreeMem` -/

/-- Merge a block with its previous neighbour, if that is free; the block that results. -/
def mergePrevious (h : Heap) (pool header_ptr : Nat) : Heap × Nat :=
  if h.dm_memory_free (h.dm_previous_memory header_ptr) ≠ 0 then
    let h := h.setPcb pool fun p => { p with dm_available := u32 (p.dm_available + DM_OVERHEAD) }
    let h := h.setNext (h.dm_previous_memory header_ptr) (h.dm_next_memory header_ptr)
    let h := h.setPrevious (h.dm_next_memory header_ptr) (h.dm_previous_memory header_ptr)
    let header_ptr := h.dm_previous_memory header_ptr
    (h.setPcb pool fun p => { p with dm_search_ptr := header_ptr }, header_ptr)
  else (h, header_ptr)

def mergeNext (h : Heap) (pool header_ptr : Nat) : Heap :=
  if h.dm_memory_free (h.dm_next_memory header_ptr) ≠ 0 then
    let h := h.setPcb pool fun p => { p with dm_available := u32 (p.dm_available + DM_OVERHEAD) }
    let new_ptr := h.dm_next_memory header_ptr
    let h := h.setPrevious (h.dm_next_memory new_ptr) header_ptr
    let h := h.setNext header_ptr (h.dm_next_memory new_ptr)
    h.setPcb pool fun p => { p with dm_search_ptr := header_ptr }
  else h

/-- The pool is the one the header names. -/
def osFreeMem (h : Heap) (memory : Nat) : Heap × Nat :=
  let header_ptr := sub32 memory DM_OVERHEAD
  let pool := h.dm_memory_pool header_ptr
  let h := h.setFree header_ptr 1
  let h := h.setPcb pool fun p =>
    { p with
      dm_available := sub32 (u32 (p.dm_available + sub32 (h.dm_next_memory header_ptr) header_ptr))
        DM_OVERHEAD }
  let r := mergePrevious h pool header_ptr
  (mergeNext r.1 pool r.2, OS_ERR_NONE)

/-! ### Runs -/

/-- The heap with the live blocks: the pointers handed out and not given back, each
with the size that was asked for. -/
structure World where
  heap : Heap
  live : List (Nat × Nat)

inductive Act where
  | getMem (size : Nat)
  | freeMem (memory : Nat)
  /-- the owner of a block stores into its payload -/
  | use (a v : Nat)

/-- A live block can be freed, and its bytes can be used. -/
def step (pool : Nat) (w : World) : Act → Option World
  | .getMem size => (osGetMem w.heap pool size).map fun r =>
      { heap := r.1, live := if r.2.1 = OS_ERR_NONE then (r.2.2, size) :: w.live else w.live }
  | .freeMem memory =>
    if memory ∈ w.live.map Prod.fst then
      some { heap := (osFreeMem w.heap memory).1, live := w.live.filter fun b => b.1 ≠ memory }
    else none
  | .use a v =>
    if ∃ b ∈ w.live, b.1 ≤ a ∧ a < b.1 + b.2 then some { w with heap := w.heap.store a v } else none

/-- The pool has just been created. -/
def Created (pool start_address pool_size min_allocation : Nat) (w : World) : Prop :=
  ∃ h, w = ⟨osCreateMemoryPool h pool start_address pool_size min_allocation, []⟩

end Nl6621.Dmem
