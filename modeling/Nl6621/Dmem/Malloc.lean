import Nl6621.Dmem.Coalesce
import Nl6621.Dmem.Search

/-!
# `OSMMalloc` and `OSMCalloc`

Both allocate from the system pool, whose minimum allocation is 16.  A request is rounded up in
32-bit numbers, and the three sizes above `0xFFFFFFFC` are rounded up to zero: such a request is
never refused.  `OSMCalloc` multiplies in 32-bit numbers too.

`Fresh` is what a caller relies on: the pointer is that of the payload of a block that was free, it
lies apart from the live blocks, and there are as many bytes as asked for.  `osmMalloc_cases` says
how a request ends, and `handsOut_iff` for which sizes what is handed out is fresh, in every state
that runs of such requests reach.
-/

namespace Nl6621.Dmem

open Lib

variable {h h' : Heap} {pool start n p : Nat} {b : Piece} {bs l r : List Piece} {w w' : World}

/-! ### The functions of the source -/

def OS_DMEM_POOL_SIZE : Nat := 1024 * 20

/-- The control block of the system pool is at `OS_system_mempool`, its memory at `sysemPool`. -/
def osDMemInit (h : Heap) (OS_system_mempool sysemPool : Nat) : Heap :=
  osCreateMemoryPool h OS_system_mempool sysemPool OS_DMEM_POOL_SIZE 16

def osmMalloc (h : Heap) (OS_system_mempool size : Nat) : Option (Heap × Nat) :=
  (osGetMem h OS_system_mempool size).map fun r =>
    (r.1, if r.2.1 = OS_ERR_NONE then r.2.2 else 0)

/-- `memset(p, 0, n)` -/
def memset0 (h : Heap) (p : Nat) : Nat → Heap
  | 0 => h
  | n + 1 => (memset0 h p n).store (p + n) 0

def osmCalloc (h : Heap) (OS_system_mempool count size : Nat) : Option (Heap × Nat) :=
  (osmMalloc h OS_system_mempool (u32 (count * size))).map fun r =>
    if r.2 ≠ 0 then (memset0 r.1 r.2 (u32 (count * size)), r.2) else r

/-! ### Runs -/

inductive Call where
  | malloc (size : Nat)
  | calloc (count size : Nat)
  | free (ptr : Nat)
  /-- the owner of a block stores into its payload -/
  | use (a v : Nat)

/-- What is handed out is live, with the size that was asked for. -/
def World.handed (w : World) (size : Nat) (r : Heap × Nat) : World :=
  ⟨r.1, if r.2 ≠ 0 then (r.2, size) :: w.live else w.live⟩

def call (pool : Nat) (w : World) : Call → Option World
  | .malloc size => (osmMalloc w.heap pool size).map (w.handed size)
  | .calloc count size => (osmCalloc w.heap pool count size).map (w.handed (count * size))
  | .free ptr => step pool w (.freeMem ptr)
  | .use a v => step pool w (.use a v)

/-- `OS_DMemInit` has just been called. -/
def Initial (pool start : Nat) (w : World) : Prop := ∃ h, w = ⟨osDMemInit h pool start, []⟩

/-! ### What a caller relies on -/

/-- The pointer `p` to `n` bytes, with the heap `h'` behind the call. -/
structure Fresh (pool : Nat) (w : World) (h' : Heap) (p n : Nat) : Prop where
  /-- it is the payload of a block of the list -/
  listed : ∃ k, w.heap.dm_next_memory^[k] (w.heap.pcb pool).dm_memory_list + DM_OVERHEAD = p
  free : w.heap.dm_memory_free (p - DM_OVERHEAD) ≠ 0
  /-- which lies before or behind that of each live block -/
  disjoint : ∀ x ∈ w.live, h'.dm_next_memory (p - DM_OVERHEAD) ≤ x.1 ∨
    w.heap.dm_next_memory (x.1 - DM_OVERHEAD) ≤ p
  enough : p + n ≤ h'.dm_next_memory (p - DM_OVERHEAD)

/-- The call returns, with `NULL` or `n` bytes. -/
def HandsOut (pool : Nat) (w : World) (n : Nat) (r : Option (Heap × Nat)) : Prop :=
  ∃ h' p, r = some (h', p) ∧ (p ≠ 0 → Fresh pool w h' p n)

/-- No free block can take `n` bytes. -/
def Full (pool : Nat) (w : World) (n : Nat) : Prop :=
  ∀ k, ¬Sufficient w.heap (rounded (w.heap.pcb pool).dm_min_allocation n)
    (w.heap.dm_next_memory^[k] (w.heap.pcb pool).dm_memory_list)

/-- The number of bytes is not rounded up to zero.  If it is no 32-bit number then there is no
room for what remains of it. -/
def Met (pool : Nat) (w : World) (n : Nat) : Prop :=
  n ≤ 0xFFFFFFFC ∨ (2 ^ 32 ≤ n ∧ u32 n ≤ 0xFFFFFFFC ∧ Full pool w (u32 n))

/-! ### The system pool -/

/-- The invariant of the system pool. -/
structure SysInv (pool start : Nat) (w : World) : Prop where
  inv : ∃ bs, Inv pool w bs
  start_eq : (w.heap.pcb pool).dm_start_address = start
  size_eq : (w.heap.pcb pool).dm_pool_size = OS_DMEM_POOL_SIZE
  min_eq : (w.heap.pcb pool).dm_min_allocation = 16

theorem sysInv_initial (hfit : start + OS_DMEM_POOL_SIZE < 2 ^ 32) (hw : Initial pool start w) :
    SysInv pool start w := by
  have hinv := inv_created (by decide) (by decide) (Nat.le_of_lt hfit) hw
  obtain ⟨h, rfl⟩ := hw
  have hpcb := osCreateMemoryPool_pcb h pool start OS_DMEM_POOL_SIZE 16
  refine ⟨hinv, ?_, ?_, ?_⟩
  · rw [osDMemInit, hpcb]
  · rw [osDMemInit, hpcb]
    rfl
  · rw [osDMemInit, hpcb]
    rfl

theorem SysInv.kept (hs : SysInv pool start w) (hi : Inv pool w' bs)
    (hk : (w.heap.pcb pool).Same (w'.heap.pcb pool)) : SysInv pool start w' := by
  rw [DmPcb.Same] at hk
  refine ⟨⟨bs, hi⟩, ?_, ?_, ?_⟩
  · rw [hk]
    exact hs.start_eq
  · rw [hk]
    exact hs.size_eq
  · rw [hk]
    exact hs.min_eq

/-- In the system pool a request is sound if it is not rounded up to zero. -/
theorem SysInv.sound (hs : SysInv pool start w) (hn : n ≤ 0xFFFFFFFC) :
    Sound pool w (.getMem n) := by
  obtain ⟨bs, hi⟩ := hs.inv
  have hl := hi.layout
  have hle := adjust_spec hl.min4 hn
  rw [hs.min_eq] at hle
  refine ⟨hn, fun h0 => ?_, fun hge k hf => ?_⟩
  · rw [hs.min_eq] at h0
    omega
  · rw [hs.min_eq, DM_OVERHEAD] at hge
    obtain ⟨b, hb, -, -, hsize⟩ := hl.block_of_free (hl.iterate_mem hl.list_mem k) hf
    have hstop := hl.stop_le hb
    have hin := (hl.rep.tiles.inside hb).1
    rw [DmPcb.trailer, hs.size_eq, OS_DMEM_POOL_SIZE] at hstop
    rw [hsize, hs.min_eq]
    omega

/-! ### How a request ends -/

/-- A free block that is taken is fresh. -/
theorem Inv.fresh (hi : Inv pool w bs) (hok : Sound pool w (.getMem n)) (hb : b ∈ bs)
    (hfree : b.free = true) (hle : adjust (w.heap.pcb pool).dm_min_allocation n ≤ b.size) :
    Fresh pool w (takeBlock w.heap pool b.addr (adjust (w.heap.pcb pool).dm_min_allocation n)
      b.size) (b.addr + 16) n := by
  have hl := hi.layout
  obtain ⟨hn4, hmin, hn⟩ := adjust_spec hl.min4 hok.1
  have hsum := hl.sum_lt hok hb hfree hle
  have hlisted := hl.exists_iterate hb
  have hflag : w.heap.dm_memory_free b.addr ≠ 0 := by
    rw [(hl.rep.headers b hb).free, hfree]
    decide
  obtain ⟨l, r, rfl⟩ := List.append_of_mem hb
  have htake := hl.take hfree hle hn4 hmin hsum
  obtain ⟨c, hused, hca, hcn⟩ := used_taken (w.heap.pcb pool).dm_min_allocation b
    (adjust (w.heap.pcb pool).dm_min_allocation n)
  generalize htaken : taken (w.heap.pcb pool).dm_min_allocation b
    (adjust (w.heap.pcb pool).dm_min_allocation n) = os at htake hused
  generalize takeBlock w.heap pool b.addr (adjust (w.heap.pcb pool).dm_min_allocation n) b.size =
    h' at htake
  have hc : c ∈ l ++ os ++ r := by
    refine List.mem_append_left _ (List.mem_append_right _ (mem_used.mp ?_).1)
    rw [hused]
    exact List.mem_cons_self
  have hnext : h'.dm_next_memory b.addr = b.addr + 16 + c.size := by
    rw [← hca]
    exact (htake.rep.headers c hc).next
  have hback : b.addr + 16 - DM_OVERHEAD = b.addr := Nat.add_sub_cancel _ _
  refine ⟨?_, ?_, fun x hx => ?_, ?_⟩
  · obtain ⟨k, hk⟩ := hlisted
    exact ⟨k, by rw [hk, DM_OVERHEAD]⟩
  · rw [hback]
    exact hflag
  · -- the block of `x` is one of the others, before and behind the call
    obtain ⟨d, hd, hx1, -⟩ := hi.live.block x hx
    have hdl := (mem_used.mp hd).1
    rw [used_append, used_cons_free hfree] at hd
    have hne := hl.used_addr_ne d hd
    have hd' : d ∈ l ++ os ++ r := by
      rcases List.mem_append.mp hd with hd | hd
      · exact List.mem_append_left _ (List.mem_append_left _ (mem_used.mp hd).1)
      · exact List.mem_append_right _ (mem_used.mp hd).1
    have hdnext := (hl.rep.headers d hdl).next
    have hxd : x.1 - DM_OVERHEAD = d.addr := by
      rw [hx1]
      exact Nat.add_sub_cancel _ _
    rw [hback, hnext, hxd, hdnext]
    rcases htake.rep.tiles.apart hc hd' with rfl | hlt | hlt
    · exact absurd hca hne
    · left
      omega
    · right
      omega
  · rw [hback, hnext]
    have hcs := hcn hle
    omega

/-- The block taken is linked to a 32-bit address. -/
theorem takeBlock_next_lt {x size f : Nat} (hx : h.dm_next_memory x < 2 ^ 32) :
    (takeBlock h pool x size f).dm_next_memory x < 2 ^ 32 := by
  have hfree : ∀ h₁ : Heap, (h₁.setFree x 0).mem x = h₁.mem x :=
    fun h₁ => Function.update_of_ne (by omega) _ _
  rw [Heap.dm_next_memory, takeBlock_mem, hfree]
  split
  · have hsplit : (splitBlock h pool x size).mem x = u32 (x + size + DM_OVERHEAD) :=
      Function.update_self _ _ _
    rw [hsplit]
    exact Nat.mod_lt _ (by decide)
  · exact hx

theorem Layout.full_iff (hl : Layout w.heap pool bs) (hn : n ≤ 0xFFFFFFFC) : Full pool w n ↔
    ∀ b ∈ bs, b.free = true → b.size < adjust (w.heap.pcb pool).dm_min_allocation n := by
  rw [Full, hl.none_sufficient, adjust_eq_rounded hl.min4 hn]

theorem osmMalloc_ok (heq : osGetMem h pool n = some (h', OS_ERR_NONE, p)) :
    osmMalloc h pool n = some (h', p) := by
  rw [osmMalloc, heq, Option.map_some, if_pos rfl]

theorem osmMalloc_full (heq : osGetMem h pool n = some (h', OS_ERR_MEM_FULL, p)) :
    osmMalloc h pool n = some (h', 0) := by
  have herr : OS_ERR_MEM_FULL ≠ OS_ERR_NONE := by decide
  rw [osmMalloc, heq, Option.map_some, if_neg herr]

/-- **How a request ends**: refused if there is no room for it, with a block that was free, or, for
the sizes that are rounded up to zero, with the block at the search pointer. -/
theorem SysInv.osmMalloc_cases (hs : SysInv pool start w)
    (hfit : start + OS_DMEM_POOL_SIZE < 2 ^ 32) (hn : n < 2 ^ 32) :
    (n ≤ 0xFFFFFFFC ∧ Full pool w n ∧ osmMalloc w.heap pool n = some (w.heap, 0)) ∨
    ∃ h' p, osmMalloc w.heap pool n = some (h', p) ∧ DM_OVERHEAD ≤ p ∧
      h'.dm_next_memory (p - DM_OVERHEAD) < 2 ^ 32 ∧
      ((n ≤ 0xFFFFFFFC ∧ ¬Full pool w n ∧ Fresh pool w h' p n) ∨ 0xFFFFFFFC < n) := by
  obtain ⟨bs, hi⟩ := hs.inv
  have hl := hi.layout
  have hlt := hl.trailer_lt
  have hnext : ∀ x ∈ nodes bs (w.heap.pcb pool).trailer, w.heap.dm_next_memory x < 2 ^ 32 := by
    intro x hx
    have hmem := hl.node_lt (hl.iterate_mem hx 1)
    rw [Function.iterate_one] at hmem
    omega
  by_cases hbig : n ≤ 0xFFFFFFFC
  · have hok := hs.sound hbig
    rcases hl.getMem_cases n hok.2.1 with ⟨b, hb, hfree, hle, heq⟩ | ⟨hall, heq⟩
    · right
      have hback : b.addr + 16 - DM_OVERHEAD = b.addr := Nat.add_sub_cancel _ _
      refine ⟨_, _, osmMalloc_ok heq, Nat.le_add_left 16 _, ?_,
        Or.inl ⟨hbig, fun hfull => ?_, hi.fresh hok hb hfree hle⟩⟩
      · rw [hback]
        exact takeBlock_next_lt (hnext _ (mem_nodes.mpr (Or.inl ⟨b, hb, rfl⟩)))
      · have hlt := (hl.full_iff hbig).mp hfull b hb hfree
        omega
    · exact Or.inl ⟨hbig, (hl.full_iff hbig).mpr hall, osmMalloc_full heq⟩
  · right
    have hzero : adjust (w.heap.pcb pool).dm_min_allocation n = 0 := by
      rw [hs.min_eq, adjust, if_neg (by omega), roundUp, u32]
      omega
    obtain ⟨k, hk⟩ : ∃ k, (w.heap.pcb pool).dm_pool_size = k + 1 := ⟨_, hs.size_eq⟩
    have hloop : searchLoop w.heap (w.heap.pcb pool).dm_search_ptr
        (adjust (w.heap.pcb pool).dm_min_allocation n) (w.heap.pcb pool).dm_pool_size
        (w.heap.pcb pool).dm_search_ptr = some ((w.heap.pcb pool).dm_search_ptr,
          freeSize w.heap (w.heap.pcb pool).dm_search_ptr) := by
      rw [hk, searchLoop, if_neg (by omega)]
    have heq := osGetMem_eq hloop
    rw [if_pos (by omega)] at heq
    have hsp : (w.heap.pcb pool).dm_search_ptr + DM_OVERHEAD < 2 ^ 32 := by
      rw [DM_OVERHEAD]
      have htr : (w.heap.pcb pool).trailer = start + OS_DMEM_POOL_SIZE - 16 := by
        rw [DmPcb.trailer, hs.start_eq, hs.size_eq]
      rcases mem_nodes.mp hl.search with ⟨b, hb, heq⟩ | heq
      · have hstop := hl.stop_le hb
        omega
      · omega
    rw [u32_of_lt hsp] at heq
    refine ⟨_, _, osmMalloc_ok heq, Nat.le_add_left _ _, ?_, Or.inr (by omega)⟩
    rw [Nat.add_sub_cancel]
    exact takeBlock_next_lt (hnext _ hl.search)

/-! ### `memset` -/

theorem memset0_mem {a : Nat} (ha : a < p) (n : Nat) : (memset0 h p n).mem a = h.mem a := by
  induction n with
  | zero => rfl
  | succ n ih =>
    have hne : (memset0 h p (n + 1)).mem a = (memset0 h p n).mem a :=
      Function.update_of_ne (by omega) _ _
    rw [hne, ih]

theorem memset0_pcb (h : Heap) (p n : Nat) : (memset0 h p n).pcb = h.pcb := by
  induction n with
  | zero => rfl
  | succ n ih => exact ih

/-- The payload of a live block is set to zero. -/
theorem inv_memset0 {k : Nat} (hi : Inv pool w bs) (hx : (p, n) ∈ w.live) (hk : k ≤ n) :
    Inv pool ⟨memset0 w.heap p k, w.live⟩ bs := by
  induction k with
  | zero => exact hi
  | succ k ih =>
    have hstep : step pool ⟨memset0 w.heap p k, w.live⟩ (.use (p + k) 0) =
        some ⟨memset0 w.heap p (k + 1), w.live⟩ :=
      if_pos ⟨(p, n), hx, Nat.le_add_right p k, Nat.add_lt_add_left hk p⟩
    exact inv_use (ih (Nat.le_of_succ_le hk)) hstep

theorem Fresh.memset0 (hf : Fresh pool w h' p n) (hp : DM_OVERHEAD ≤ p) (m : Nat) :
    Fresh pool w (memset0 h' p m) p n := by
  have hlt : p - DM_OVERHEAD < p := Nat.sub_lt (by rw [DM_OVERHEAD] at hp; omega) (by decide)
  have hnext : (Dmem.memset0 h' p m).dm_next_memory (p - DM_OVERHEAD) =
      h'.dm_next_memory (p - DM_OVERHEAD) := memset0_mem hlt m
  refine ⟨hf.listed, hf.free, ?_, ?_⟩
  · rw [hnext]
    exact hf.disjoint
  · rw [hnext]
    exact hf.enough

/-! ### When what is handed out is fresh -/

theorem SysInv.handsOut_malloc_iff (hs : SysInv pool start w)
    (hfit : start + OS_DMEM_POOL_SIZE < 2 ^ 32) (hn : n < 2 ^ 32) :
    HandsOut pool w n (osmMalloc w.heap pool n) ↔ n ≤ 0xFFFFFFFC := by
  rcases hs.osmMalloc_cases hfit hn with
    ⟨hle, -, heq⟩ | ⟨h', p, heq, hp, hnext, ⟨hle, -, hfresh⟩ | hgt⟩
  · exact iff_of_true ⟨_, _, heq, fun h => absurd rfl h⟩ hle
  · exact iff_of_true ⟨_, _, heq, fun _ => hfresh⟩ hle
  · refine iff_of_false ?_ (by omega)
    rintro ⟨h'', p', heq', hall⟩
    rw [heq] at heq'
    cases heq'
    rw [DM_OVERHEAD] at hp
    have henough := (hall (by omega)).enough
    omega

theorem SysInv.handsOut_calloc_iff (hs : SysInv pool start w)
    (hfit : start + OS_DMEM_POOL_SIZE < 2 ^ 32) (count size : Nat) :
    HandsOut pool w (count * size) (osmCalloc w.heap pool count size) ↔
      Met pool w (count * size) := by
  generalize hn : count * size = n
  have hle : u32 n ≤ n := Nat.mod_le n _
  have hlt : u32 n < 2 ^ 32 := Nat.mod_lt n (by decide)
  have hcalloc : osmCalloc w.heap pool count size = (osmMalloc w.heap pool (u32 n)).map fun r =>
      if r.2 ≠ 0 then (memset0 r.1 r.2 (u32 n), r.2) else r := by
    rw [osmCalloc, hn]
  rcases hs.osmMalloc_cases hfit hlt with
    ⟨hsmall, hfull, heq⟩ | ⟨h', p, heq, hp, hnext, hcase⟩
  · refine iff_of_true ⟨w.heap, 0, ?_, fun h => absurd rfl h⟩ ?_
    · rw [hcalloc, heq]
      rfl
    · by_cases hwrap : n < 2 ^ 32
      · rw [u32_of_lt hwrap] at hsmall
        exact Or.inl hsmall
      · exact Or.inr ⟨by omega, hsmall, hfull⟩
  · have hp0 : p ≠ 0 := by
      rw [DM_OVERHEAD] at hp
      omega
    have hret : osmCalloc w.heap pool count size = some (memset0 h' p (u32 n), p) := by
      rw [hcalloc, heq, Option.map_some, if_pos hp0]
    have hlink : (memset0 h' p (u32 n)).dm_next_memory (p - DM_OVERHEAD) < 2 ^ 32 := by
      rw [Heap.dm_next_memory, memset0_mem (Nat.sub_lt (by omega) (by decide))]
      exact hnext
    have hbound : HandsOut pool w n (osmCalloc w.heap pool count size) → n ≤ 0xFFFFFFFC := by
      rintro ⟨h'', p', heq', hall⟩
      rw [hret] at heq'
      cases heq'
      have henough := (hall hp0).enough
      rw [DM_OVERHEAD] at hp
      omega
    rcases hcase with ⟨hsmall, hroom, hfresh⟩ | hgt
    · by_cases hn : n ≤ 0xFFFFFFFC
      · rw [u32_of_lt (by omega)] at hfresh hret
        exact iff_of_true ⟨_, _, hret, fun _ => hfresh.memset0 hp n⟩ (Or.inl hn)
      · refine iff_of_false (fun h => hn (hbound h)) ?_
        rintro (h | ⟨-, -, hfull⟩)
        · exact hn h
        · exact hroom hfull
    · refine iff_of_false (fun h => absurd (hbound h) (by omega)) ?_
      rintro (h | ⟨-, h, -⟩)
      · omega
      · omega

/-- The condition on a run. -/
def Fitting (pool : Nat) (w : World) : Call → Prop
  | .malloc size => size ≤ 0xFFFFFFFC
  | .calloc count size => Met pool w (count * size)
  | _ => True

theorem SysInv.step (hs : SysInv pool start w) {a : Act} (hok : Sound pool w a)
    (h : step pool w a = some w') : SysInv pool start w' := by
  obtain ⟨bs, hi⟩ := hs.inv
  obtain ⟨bs', hi'⟩ := inv_step hi hok h
  exact hs.kept hi' (kept_step hi hok h).1

theorem SysInv.call_malloc (hs : SysInv pool start w) (hn : n ≤ 0xFFFFFFFC) :
    call pool w (.malloc n) = Dmem.step pool w (.getMem n) := by
  obtain ⟨bs, hi⟩ := hs.inv
  have herr : OS_ERR_MEM_FULL ≠ OS_ERR_NONE := by decide
  rcases hi.layout.getMem_cases n (hs.sound hn).2.1 with ⟨b, -, -, -, heq⟩ | ⟨-, heq⟩
  · have hne : b.addr + 16 ≠ 0 := by omega
    rw [call, osmMalloc_ok heq, Dmem.step, heq, Option.map_some, Option.map_some, World.handed,
      if_pos hne, if_pos rfl]
  · rw [call, osmMalloc_full heq, Dmem.step, heq, Option.map_some, Option.map_some, World.handed,
      if_neg (fun h => h rfl), if_neg herr]

/-- A request of `OSMCalloc` is refused, or is one of `OSMMalloc` with its bytes set to zero. -/
theorem SysInv.call_calloc (hs : SysInv pool start w) (hfit : start + OS_DMEM_POOL_SIZE < 2 ^ 32)
    {count size : Nat} (hmet : Met pool w (count * size)) :
    call pool w (.calloc count size) = some w ∨
      ∃ h' p, count * size ≤ 0xFFFFFFFC ∧
        call pool w (.malloc (count * size)) = some ⟨h', (p, count * size) :: w.live⟩ ∧
        call pool w (.calloc count size) =
          some ⟨memset0 h' p (count * size), (p, count * size) :: w.live⟩ := by
  generalize hn : count * size = n at hmet
  have hlt : u32 n < 2 ^ 32 := Nat.mod_lt n (by decide)
  rcases hs.osmMalloc_cases hfit hlt with
    ⟨-, -, heq⟩ | ⟨h', p, heq, hp, -, ⟨-, hroom, -⟩ | hgt⟩
  · left
    rw [call, osmCalloc, hn, heq]
    rfl
  · right
    have hle : n ≤ 0xFFFFFFFC := hmet.resolve_right fun h => hroom h.2.2
    have hp0 : p ≠ 0 := by
      rw [DM_OVERHEAD] at hp
      omega
    rw [u32_of_lt (by omega)] at heq
    refine ⟨h', p, hle, ?_, ?_⟩
    · rw [call, heq, Option.map_some, World.handed, if_pos hp0]
    · rw [call, osmCalloc, hn, u32_of_lt (by omega), heq, Option.map_some, if_pos hp0,
        Option.map_some, World.handed, if_pos hp0]
  · have hle : u32 n ≤ n := Nat.mod_le n _
    rcases hmet with h | ⟨-, h, -⟩
    · omega
    · omega

/-- **One call of a run.** -/
theorem SysInv.call (hs : SysInv pool start w) (hfit : start + OS_DMEM_POOL_SIZE < 2 ^ 32)
    {c : Call} (hok : Fitting pool w c) (h : call pool w c = some w') :
    SysInv pool start w' := by
  have hmalloc : ∀ {n : Nat} {w₁ : World}, n ≤ 0xFFFFFFFC →
      Dmem.call pool w (.malloc n) = some w₁ → SysInv pool start w₁ := by
    intro n w₁ hn h
    rw [hs.call_malloc hn] at h
    exact hs.step (hs.sound hn) h
  cases c with
  | malloc size => exact hmalloc hok h
  | calloc count size =>
    rcases hs.call_calloc hfit hok with heq | ⟨h', p, hle, hm, heq⟩
    · rw [heq] at h
      cases h
      exact hs
    · rw [heq] at h
      cases h
      have hs₁ := hmalloc hle hm
      obtain ⟨bs, hi⟩ := hs₁.inv
      refine hs₁.kept (inv_memset0 hi List.mem_cons_self (Nat.le_refl _)) ?_
      rw [memset0_pcb]
      exact .refl _
  | free ptr =>
    have hok : Sound pool w (.freeMem ptr) := trivial
    exact hs.step hok h
  | use a v =>
    have hok : Sound pool w (.use a v) := trivial
    exact hs.step hok h

/-- **For which sizes what is handed out is fresh.**  A run of calls that meet the condition
reaches states in which `OSMMalloc` and `OSMCalloc` hand out enough if and only if their next call
meets it too. -/
theorem handsOut_iff (hfit : start + OS_DMEM_POOL_SIZE < 2 ^ 32)
    (h : Reach (Initial pool start) (call pool) (Fitting pool) w) :
    (∀ size, size < 2 ^ 32 →
      (HandsOut pool w size (osmMalloc w.heap pool size) ↔ size ≤ 0xFFFFFFFC)) ∧
    ∀ count size, count < 2 ^ 32 → size < 2 ^ 32 →
      (HandsOut pool w (count * size) (osmCalloc w.heap pool count size) ↔
        Met pool w (count * size)) := by
  have hs : SysInv pool start w := h.invariant (fun _ hw => sysInv_initial hfit hw)
    fun _ _ _ hs hok hc => hs.call hfit hok hc
  exact ⟨fun size hn => hs.handsOut_malloc_iff hfit hn,
    fun count size _ _ => hs.handsOut_calloc_iff hfit count size⟩

/-- The system pool after `OS_DMemInit`, in memory that is all zero. -/
def systemPool : World := ⟨osDMemInit ⟨fun _ => 0, fun _ => ⟨0, 0, 0, 0, 0, 0⟩⟩ 1 4096, []⟩

theorem initial_systemPool : Initial 1 4096 systemPool := ⟨_, rfl⟩

theorem handsOut_iff_system : HandsOut 1 systemPool 100 (osmMalloc systemPool.heap 1 100) ∧
    HandsOut 1 systemPool (3 * 40) (osmCalloc systemPool.heap 1 3 40) := by
  obtain ⟨hm, hc⟩ := handsOut_iff (by decide) (.start initial_systemPool)
  exact ⟨(hm 100 (by decide)).mpr (by decide),
    (hc 3 40 (by decide) (by decide)).mpr (Or.inl (by decide))⟩

/-- A request of 2³² - 1 bytes, and one of 65536 times 65536 bytes, are met. -/
theorem handsOut_short :
    ¬HandsOut 1 systemPool 0xFFFFFFFF (osmMalloc systemPool.heap 1 0xFFFFFFFF) ∧
    ¬HandsOut 1 systemPool (65536 * 65536) (osmCalloc systemPool.heap 1 65536 65536) := by
  have hfit : 4096 + OS_DMEM_POOL_SIZE < 2 ^ 32 := by decide
  have hs := sysInv_initial hfit initial_systemPool
  rw [hs.handsOut_malloc_iff hfit (by decide), hs.handsOut_calloc_iff hfit]
  refine ⟨by decide, ?_⟩
  rintro (h | ⟨-, -, hfull⟩)
  · exact absurd h (by decide)
  · exact hfull 0 ⟨by decide, by decide⟩

end Nl6621.Dmem
