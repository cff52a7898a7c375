import Nl6621.Dmem.Layout
import Nl6621.Lib.Runs

/-!
# The representation of a pool over whole runs

A run creates a pool and then allocates, frees live blocks and stores into them, in any
order.  `Inv` is the invariant of the proofs: the layout of the pool, no two free
neighbours, and the live blocks being the blocks in use (`LiveIn`).  `Consistent` is what
follows for a reader of the memory: the tiling, the circular list in both directions, the
accounts of the control block, and the payloads of the live blocks.

The code does not keep this for every request, and `Sound` is the condition it needs.  A
request whose adjusted size is zero accepts whatever is at the search pointer, since a block
in use counts as one with no free bytes, and no free bytes are enough; this needs a pool
without a minimum allocation.  And the sum of the sizes in the test whether to split wraps
around when a huge request can be met.  `heap_invariant` is the result for all other runs,
`trailer_freed` a run of three calls in which the trailer becomes a free block.
-/

namespace Nl6621.Dmem

open Lib

variable {h h' : Heap} {pool n : Nat} {b c : Piece} {bs l r : List Piece} {w w' : World}

/-! ### Live blocks -/

/-- The live blocks are the blocks in use, and each is large enough. -/
structure LiveIn (live : List (Nat × Nat)) (bs : List Piece) : Prop where
  block : ∀ x ∈ live, ∃ b ∈ bs, x.1 = b.addr + 16 ∧ x.2 ≤ b.size
  all : ∀ b ∈ bs, b.addr + 16 ∈ live.map Prod.fst
  nodup : (live.map Prod.fst).Nodup

section

variable {live : List (Nat × Nat)}

theorem LiveIn.insert (hv : LiveIn live (l ++ r)) (hn : n ≤ b.size)
    (hb : ∀ c ∈ l ++ r, c.addr ≠ b.addr) : LiveIn ((b.addr + 16, n) :: live) (l ++ b :: r) := by
  refine ⟨?_, ?_, ?_⟩
  · intro x hx
    rcases List.mem_cons.mp hx with rfl | hx
    · exact ⟨b, by simp, rfl, hn⟩
    · obtain ⟨c, hc, h1, h2⟩ := hv.block x hx
      refine ⟨c, ?_, h1, h2⟩
      rw [List.append_cons]
      simp at hc ⊢
      tauto
  · have hall := hv.all
    rw [List.forall_mem_append] at hall
    refine forall_mid.mpr ⟨fun c hc => .tail _ (hall.1 c hc), List.mem_cons_self,
      fun c hc => .tail _ (hall.2 c hc)⟩
  · refine List.nodup_cons.mpr ⟨fun hx => ?_, hv.nodup⟩
    obtain ⟨x, hx, heq⟩ := List.mem_map.mp hx
    obtain ⟨c, hc, h1, -⟩ := hv.block x hx
    exact hb c hc (by simp only at heq; omega)

theorem LiveIn.remove (hv : LiveIn live (l ++ b :: r)) (hb : ∀ c ∈ l ++ r, c.addr ≠ b.addr) :
    LiveIn (live.filter fun x => x.1 ≠ b.addr + 16) (l ++ r) := by
  refine ⟨?_, ?_, ?_⟩
  · intro x hx
    obtain ⟨hx, hne⟩ := List.mem_filter.mp hx
    obtain ⟨c, hc, h1, h2⟩ := hv.block x hx
    refine ⟨c, ?_, h1, h2⟩
    have hcb : c ≠ b := by
      rintro rfl
      simp [h1] at hne
    simp at hc ⊢
    tauto
  · intro c hc
    have hlive : c.addr + 16 ∈ live.map Prod.fst := by
      refine hv.all c ?_
      simp at hc ⊢
      tauto
    obtain ⟨x, hx, heq⟩ := List.mem_map.mp hlive
    refine List.mem_map.mpr ⟨x, List.mem_filter.mpr ⟨hx, ?_⟩, heq⟩
    have := hb c hc
    simp only [ne_eq, decide_not, Bool.not_eq_true', decide_eq_false_iff_not]
    omega
  · exact hv.nodup.sublist (List.Sublist.map _ List.filter_sublist)

end

/-! ### The invariant -/

structure Inv (pool : Nat) (w : World) (bs : List Piece) : Prop where
  layout : Layout w.heap pool bs
  separate : Separate bs
  live : LiveIn w.live (used bs)

/-- The addresses of the blocks in use differ from that of another block. -/
theorem Layout.used_addr_ne (hl : Layout h pool (l ++ b :: r)) :
    ∀ c ∈ used l ++ used r, c.addr ≠ b.addr := by
  intro c hc
  obtain ⟨htl, htr⟩ := hl.rep.tiles.around
  rcases List.mem_append.mp hc with hc | hc
  · have := (htl.inside (mem_used.mp hc).1).2
    omega
  · have := (htr.inside (mem_used.mp hc).1).1
    omega

/-! ### The creation of a pool -/

theorem osCreateMemoryPool_pcb (h : Heap) (pool start size min : Nat) :
    (osCreateMemoryPool h pool start size min).pcb pool =
      { dm_start_address := start
        dm_pool_size := size / 4 * 4
        dm_min_allocation := roundUp min
        dm_available := sub32 (size / 4 * 4) 32
        dm_memory_list := start
        dm_search_ptr := start } := by
  simp [osCreateMemoryPool, Heap.setPcb, Heap.setNext, Heap.setPrevious, Heap.setFree, Heap.setPool,
    Heap.store, DM_OVERHEAD]

theorem osCreateMemoryPool_mem (h : Heap) (pool start size min : Nat) {e : Nat}
    (he : u32 (start + sub32 (size / 4 * 4) (2 * DM_OVERHEAD) + DM_OVERHEAD) = e) (x : Nat) :
    (osCreateMemoryPool h pool start size min).mem x =
      if x = e + 8 then 0 else if x = e + 12 then pool else if x = e + 4 then start
      else if x = e then start else if x = start + 4 then e else if x = start then e
      else if x = start + 8 then 1 else if x = start + 12 then pool else h.mem x := by
  simp only [osCreateMemoryPool, Heap.setPcb, Heap.setNext, Heap.setPrevious, Heap.setFree,
    Heap.setPool, Heap.store, Heap.dm_next_memory, Function.update_self, he, Function.update_apply]
  simp

/-- A new pool is one free block. -/
theorem layout_created {start size min : Nat} (hsize : 32 + roundUp min ≤ size)
    (hword : size < 2 ^ 32) (hfit : start + size ≤ 2 ^ 32) :
    Layout (osCreateMemoryPool h pool start size min) pool [⟨start, size / 4 * 4 - 32, true⟩] := by
  have h4 : roundUp min % 4 = 0 := by rw [roundUp]; omega
  have hsub : sub32 (size / 4 * 4) 32 = size / 4 * 4 - 32 := sub32_of_le (by omega) (by omega)
  obtain ⟨e, he⟩ : ∃ e, start + size / 4 * 4 - 16 = e := ⟨_, rfl⟩
  have hend : u32 (start + sub32 (size / 4 * 4) (2 * DM_OVERHEAD) + DM_OVERHEAD) = e := by
    rw [DM_OVERHEAD, hsub, u32_of_lt (by omega)]
    omega
  have hpcb := osCreateMemoryPool_pcb h pool start size min
  have hmem := osCreateMemoryPool_mem h pool start size min hend
  generalize osCreateMemoryPool h pool start size min = h' at hpcb hmem
  have htr : (h'.pcb pool).trailer = e := by rw [hpcb]; exact he
  have hstop : start + 16 + (size / 4 * 4 - 32) = e := by omega
  have hnext : h'.mem start = e := by
    rw [hmem, if_neg (by omega), if_neg (by omega), if_neg (by omega), if_neg (by omega),
      if_neg (by omega), if_pos rfl]
  have hfree : h'.mem (start + 8) = 1 := by
    rw [hmem, if_neg (by omega), if_neg (by omega), if_neg (by omega), if_neg (by omega),
      if_neg (by omega), if_neg (by omega), if_pos rfl]
  have hpool : h'.mem (start + 12) = pool := by
    rw [hmem, if_neg (by omega), if_neg (by omega), if_neg (by omega), if_neg (by omega),
      if_neg (by omega), if_neg (by omega), if_neg (by omega), if_pos rfl]
  have hback : h'.mem (e + 4) = start := by
    rw [hmem, if_neg (by omega), if_neg (by omega), if_pos rfl]
  have hrep : Rep h' pool start e [⟨start, size / 4 * 4 - 32, true⟩] := by
    refine ⟨⟨rfl, hstop⟩, ?_, ?_, ?_, ?_⟩
    · intro b hb
      rw [List.mem_singleton.mp hb]
      refine ⟨hnext.trans hstop.symm, ?_, hfree, hpool⟩
      change h'.mem (start + 16 + (size / 4 * 4 - 32) + 4) = start
      rw [hstop]
      exact hback
    · change h'.mem e = start
      rw [hmem, if_neg (by omega), if_neg (by omega), if_neg (by omega), if_pos rfl]
    · change h'.mem (start + 4) = e
      rw [hmem, if_neg (by omega), if_neg (by omega), if_neg (by omega), if_neg (by omega),
        if_pos rfl]
    · change h'.mem (e + 8) = 0
      rw [hmem, if_pos rfl]
  refine ⟨?_, ?_, ?_, ?_, ?_, ?_, ?_, ?_⟩
  · rw [htr, hpcb]
    exact hrep
  · rw [hpcb]
    simp only
    omega
  · rw [hpcb]
    simp only
    omega
  · rw [hpcb]
    exact h4
  · intro b hb
    rw [List.mem_singleton.mp hb, hpcb]
    simp only
    omega
  · rw [hpcb]
    exact hsub
  · rw [hpcb]
    exact List.mem_cons_self
  · rw [hpcb]

theorem inv_created {start size min : Nat} (hsize : 32 + roundUp min ≤ size)
    (hword : size < 2 ^ 32) (hfit : start + size ≤ 2 ^ 32) (hw : Created pool start size min w) :
    ∃ bs, Inv pool w bs := by
  obtain ⟨h, rfl⟩ := hw
  refine ⟨_, layout_created hsize hword hfit, List.isChain_singleton _, ?_, ?_, List.nodup_nil⟩
  · intro x hx
    cases hx
  · intro b hb
    cases hb

/-! ### The steps -/

/-- No size asked for is so large that rounding it up to words would wrap around.  Which blocks can
be freed is part of the step. -/
def SizesFit (_ : World) : Act → Prop
  | .getMem size => size ≤ 0xFFFFFFFC
  | _ => True

/-- The requests the code serves as it should.  If the adjusted size is zero, the block at the
search pointer is free; and if the sum of the sizes is no 32-bit number, there is no free
block of the list that is large enough. -/
def Sound (pool : Nat) (w : World) : Act → Prop
  | .getMem size =>
    let p := w.heap.pcb pool
    size ≤ 0xFFFFFFFC ∧
    (adjust p.dm_min_allocation size = 0 → w.heap.dm_memory_free p.dm_search_ptr ≠ 0) ∧
    (2 ^ 32 ≤ adjust p.dm_min_allocation size + DM_OVERHEAD + p.dm_min_allocation →
      ∀ k, let x := w.heap.dm_next_memory^[k] p.dm_memory_list
        w.heap.dm_memory_free x ≠ 0 → freeSize w.heap x < adjust p.dm_min_allocation size)
  | _ => True

theorem adjust_spec {min size : Nat} (hmin : min % 4 = 0) (hs : size ≤ 0xFFFFFFFC) :
    adjust min size % 4 = 0 ∧ min ≤ adjust min size ∧ size ≤ adjust min size := by
  rw [adjust]
  split
  · omega
  · rw [roundUp, u32_of_lt (by omega)]
    omega

/-- The blocks of the list are found from its first element on. -/
theorem Layout.exists_iterate (hl : Layout h pool bs) (hb : b ∈ bs) :
    ∃ k, h.dm_next_memory^[k] (h.pcb pool).dm_memory_list = b.addr := by
  rw [hl.list]
  have hchain := isChain_nodes hl.rep.tiles hl.rep.headers
  have hhead := head_nodes hl.rep.tiles
  have hmem : b.addr ∈ nodes bs (h.pcb pool).trailer := mem_nodes.mpr (.inl ⟨b, hb, rfl⟩)
  cases hn : nodes bs (h.pcb pool).trailer with
  | nil =>
    rw [hn] at hmem
    cases hmem
  | cons x xs =>
    rw [hn] at hchain hhead hmem
    cases hhead
    exact exists_iterate_of_isChain hchain hmem

theorem used_taken (min : Nat) (b : Piece) (n : Nat) :
    ∃ c, used (taken min b n) = [c] ∧ c.addr = b.addr ∧ (n ≤ b.size → n ≤ c.size) := by
  rw [taken]
  split
  · exact ⟨⟨b.addr, n, false⟩, rfl, rfl, fun _ => le_rfl⟩
  · exact ⟨⟨b.addr, b.size, false⟩, rfl, rfl, fun hn => hn⟩

theorem separate_taken {min : Nat} (hs : Separate (l ++ b :: r)) (hb : b.free = true) :
    Separate (l ++ taken min b n ++ r) := by
  rw [taken]
  split
  · simpa using hs.split hb rfl
  · simpa using hs.used rfl

/-- A sound request that can be met has sizes whose sum is a 32-bit number. -/
theorem Layout.sum_lt (hl : Layout w.heap pool bs) {size : Nat} (hok : Sound pool w (.getMem size))
    (hb : b ∈ bs) (hfree : b.free = true)
    (hle : adjust (w.heap.pcb pool).dm_min_allocation size ≤ b.size) :
    adjust (w.heap.pcb pool).dm_min_allocation size + 16 + (w.heap.pcb pool).dm_min_allocation <
      2 ^ 32 := by
  by_contra hge
  obtain ⟨k, hk⟩ := hl.exists_iterate hb
  have hlt := hok.2.2 (by rw [DM_OVERHEAD]; omega) k
  simp only [hk] at hlt
  have hflag : w.heap.dm_memory_free b.addr ≠ 0 := by
    rw [(hl.rep.headers b hb).free, hfree]
    simp
  have := hlt hflag
  rw [hl.freeSize_le hb hfree] at this
  omega

/-- **`OS_GetMem` keeps the invariant**, and returns. -/
theorem inv_getMem (hi : Inv pool w bs) {size : Nat} (hok : Sound pool w (.getMem size)) :
    ∃ w', step pool w (.getMem size) = some w' ∧ ∃ bs', Inv pool w' bs' := by
  obtain ⟨hn4, hmin, hn⟩ := adjust_spec hi.layout.min4 hok.1
  rcases hi.layout.getMem_cases size hok.2.1 with ⟨b, hb, hfree, hle, heq⟩ | ⟨-, heq⟩
  · have hsum := hi.layout.sum_lt hok hb hfree hle
    obtain ⟨l, r, rfl⟩ := List.append_of_mem hb
    obtain ⟨c, hused, hca, hcn⟩ := used_taken (w.heap.pcb pool).dm_min_allocation b
      (adjust (w.heap.pcb pool).dm_min_allocation size)
    refine ⟨_, by rw [step, heq]; rfl, _, hi.layout.take hfree hle hn4 hmin hsum,
      separate_taken hi.separate hfree, ?_⟩
    have hlive := hi.live
    rw [used_append, used_cons_free hfree] at hlive
    rw [used_append, used_append, hused, List.append_assoc, List.singleton_append, ← hca]
    refine hlive.insert (le_trans hn (hcn hle)) ?_
    rw [hca]
    exact hi.layout.used_addr_ne
  · exact ⟨_, by rw [step, heq]; rfl, bs, hi⟩

/-- The block a live pointer belongs to. -/
theorem Inv.block_of_live (hi : Inv pool w bs) {x : Nat × Nat} (hx : x ∈ w.live) :
    ∃ l b r, bs = l ++ b :: r ∧ b.free = false ∧ x.1 = b.addr + 16 ∧ x.2 ≤ b.size := by
  obtain ⟨b, hb, h1, h2⟩ := hi.live.block x hx
  obtain ⟨hb, hf⟩ := mem_used.mp hb
  obtain ⟨l, r, rfl⟩ := List.append_of_mem hb
  exact ⟨l, b, r, rfl, hf, h1, h2⟩

/-- **`OS_FreeMem` of a live block keeps the invariant.** -/
theorem inv_freeMem (hi : Inv pool w bs) {memory : Nat}
    (hs : step pool w (.freeMem memory) = some w') : ∃ bs', Inv pool w' bs' := by
  rw [step] at hs
  split at hs
  · rename_i hm
    obtain rfl := Option.some.inj hs
    obtain ⟨x, hx, rfl⟩ := List.mem_map.mp hm
    obtain ⟨l, b, r, rfl, hf, h1, -⟩ := hi.block_of_live hx
    rw [h1]
    obtain ⟨bs', hl, hsep, hused, -, -⟩ := hi.layout.release hi.separate hf
    generalize (osFreeMem w.heap (b.addr + 16)).1 = h' at hl ⊢
    refine ⟨bs', hl, hsep, ?_⟩
    have hlive := hi.live
    rw [used_append, used_cons_used hf] at hlive
    rw [hused]
    exact hlive.remove hi.layout.used_addr_ne
  · cases hs

/-- A store into the payload of a block changes no header. -/
theorem Rep.use {s e a v : Nat} (hr : Rep h pool s e (l ++ b :: r)) (h1 : b.addr + 16 ≤ a)
    (h2 : a < b.addr + 16 + b.size) : Rep (h.store a v) pool s e (l ++ b :: r) := by
  have hm : ∀ x, x ≠ a → (h.store a v).mem x = h.mem x := fun x hx => Function.update_of_ne hx _ _
  obtain ⟨htl, htr⟩ := hr.tiles.around
  obtain ⟨-, hb, -⟩ := forall_mid.mp hr.headers
  have hb' : Header (h.store a v) pool b := hb.frame fun x hx => hm x (by omega)
  rw [List.append_cons] at hr ⊢
  exact hr.replace htl htr (by omega) _ _ (fun x hx => hm x (by omega)) ⟨rfl, rfl⟩ (by simpa using hb')

theorem inv_use (hi : Inv pool w bs) {a v : Nat} (hs : step pool w (.use a v) = some w') :
    Inv pool w' bs := by
  rw [step] at hs
  split at hs
  · rename_i hx
    cases hs
    obtain ⟨x, hx, h1, h2⟩ := hx
    obtain ⟨l, b, r, rfl, -, h3, h4⟩ := hi.block_of_live hx
    have hl := hi.layout
    have hrep := hl.rep.use (a := a) (v := v) (by omega) (by omega)
    exact ⟨hl.update rfl hrep hl.payload hl.available hl.search, hi.separate, hi.live⟩
  · cases hs

/-- **One step of a run.** -/
theorem inv_step (hi : Inv pool w bs) {a : Act} (hok : Sound pool w a)
    (hs : step pool w a = some w') : ∃ bs', Inv pool w' bs' := by
  cases a with
  | getMem size =>
    obtain ⟨w₁, h1, hi'⟩ := inv_getMem hi hok
    rw [hs] at h1
    cases h1
    exact hi'
  | freeMem memory => exact inv_freeMem hi hs
  | use a v => exact ⟨bs, inv_use hi hs⟩

/-! ### The pool in memory -/

/-- The memory of a pool with the blocks `bs` is in order. -/
structure Consistent (pool : Nat) (w : World) (bs : List Piece) : Prop where
  /-- the blocks tile the pool from its start to the trailer -/
  tiles : Tiles DM_OVERHEAD (w.heap.pcb pool).dm_start_address bs (w.heap.pcb pool).trailer
  /-- the links are one circular list, closed by the trailer -/
  circular : Ring w.heap.dm_next_memory (w.heap.pcb pool).trailer (bs.map Piece.addr)
  ascending : (nodes bs (w.heap.pcb pool).trailer).Pairwise (· < ·)
  inverse : ∀ x ∈ nodes bs (w.heap.pcb pool).trailer,
    w.heap.dm_previous_memory (w.heap.dm_next_memory x) = x ∧
      w.heap.dm_next_memory (w.heap.dm_previous_memory x) = x
  flags : ∀ b ∈ bs, w.heap.dm_memory_free b.addr ≠ 0 ↔ b.free = true
  trailer_used : w.heap.dm_memory_free (w.heap.pcb pool).trailer = 0
  /-- no two neighbours are free -/
  separate : Separate bs
  payload : ∀ b ∈ bs, b.size % 4 = 0 ∧ (w.heap.pcb pool).dm_min_allocation ≤ b.size
  available : (w.heap.pcb pool).dm_available = freeTotal bs
  search : (w.heap.pcb pool).dm_search_ptr ∈ nodes bs (w.heap.pcb pool).trailer
  /-- a live block is a block in use, inside the pool and large enough -/
  live : ∀ x ∈ w.live, ∃ b ∈ bs, b.free = false ∧ x.1 = b.addr + DM_OVERHEAD ∧ x.2 ≤ b.size ∧
    (w.heap.pcb pool).dm_start_address ≤ x.1 ∧ x.1 + b.size ≤ (w.heap.pcb pool).trailer
  /-- the payloads of two live blocks do not meet -/
  disjoint : w.live.Pairwise fun x y => ∀ b ∈ bs, ∀ c ∈ bs, x.1 = b.addr + DM_OVERHEAD →
    y.1 = c.addr + DM_OVERHEAD → x.1 + b.size ≤ y.1 ∨ y.1 + c.size ≤ x.1

theorem Rep.inverse {s e x : Nat} (hr : Rep h pool s e bs) (hse : s ≠ e) (hx : x ∈ nodes bs e) :
    h.dm_previous_memory (h.dm_next_memory x) = x ∧
      h.dm_next_memory (h.dm_previous_memory x) = x := by
  constructor
  · rcases mem_nodes.mp hx with ⟨b, hb, rfl⟩ | rfl
    · have hh := hr.headers b hb
      rw [hh.next, hh.previous]
    · rw [hr.next_trailer, hr.previous_first]
  · by_cases hxs : x = s
    · rw [hxs, hr.previous_first, hr.next_trailer]
    · obtain ⟨b, hb, rfl⟩ := hr.tiles.exists_stop hx hxs
      have hh := hr.headers b hb
      rw [hh.previous, hh.next]

theorem Inv.consistent (hi : Inv pool w bs) : Consistent pool w bs := by
  have hl := hi.layout
  refine ⟨hl.rep.tiles, hl.rep.ring, hl.rep.tiles.ascending (by omega), ?_, ?_, hl.rep.free_trailer,
    hi.separate, hl.payload, hl.available, hl.search, ?_, ?_⟩
  · have := hl.start_le
    exact fun x hx => hl.rep.inverse (by omega) hx
  · intro b hb
    rw [(hl.rep.headers b hb).free]
    cases b.free <;> simp
  · intro x hx
    obtain ⟨b, hb, h1, h2⟩ := hi.live.block x hx
    obtain ⟨hb, hf⟩ := mem_used.mp hb
    have := hl.rep.tiles.inside hb
    exact ⟨b, hb, hf, h1, h2, by omega, by omega⟩
  · have hnodup := List.pairwise_map.mp hi.live.nodup
    refine hnodup.imp fun {x y} hne b hb c hc hx hy => ?_
    rw [DM_OVERHEAD] at hx hy
    rcases hl.rep.tiles.apart hb hc with rfl | h1 | h1
    · exact absurd (hx.trans hy.symm) hne
    · exact .inl (by omega)
    · exact .inr (by omega)

theorem exists_inv {start size min : Nat} (hsize : 32 + roundUp min ≤ size)
    (hword : size < 2 ^ 32) (hfit : start + size ≤ 2 ^ 32)
    (h : Reach (Created pool start size min) (step pool) (Sound pool) w) : ∃ bs, Inv pool w bs :=
  h.invariant (fun _ hw => inv_created hsize hword hfit hw)
    fun _ _ _ hi hok hs => hi.elim fun _ hi => inv_step hi hok hs

/-- **The representation of a pool.**  In a run all of whose requests are sound the memory of
the pool is in order in every state, and the search of `OS_GetMem` ends. -/
theorem heap_invariant {start size min : Nat} (hsize : 32 + roundUp min ≤ size)
    (hword : size < 2 ^ 32) (hfit : start + size ≤ 2 ^ 32)
    (h : Reach (Created pool start size min) (step pool) (Sound pool) w) :
    (∃ bs, Consistent pool w bs) ∧
      ∀ n, Sound pool w (.getMem n) → (step pool w (.getMem n)).isSome := by
  obtain ⟨bs, hi⟩ := exists_inv hsize hword hfit h
  refine ⟨⟨bs, hi.consistent⟩, fun n hok => ?_⟩
  obtain ⟨w', hs, -⟩ := inv_getMem hi hok
  rw [hs]
  rfl

/-- A pool just created in memory that is all zero. -/
def newPool (size min : Nat) : World :=
  ⟨osCreateMemoryPool ⟨fun _ => 0, fun _ => ⟨0, 0, 0, 0, 0, 0⟩⟩ 1 4096 size min, []⟩

theorem newPool_created {size min : Nat} : Created 1 4096 size min (newPool size min) := ⟨_, rfl⟩

/-- The system pool of `OS_DMemInit` after a first allocation. -/
theorem heap_invariant_system :
    ∃ w, step 1 (newPool 20480 16) (.getMem 100) = some w ∧ ∃ bs, Consistent 1 w bs := by
  have hok : Sound 1 (newPool 20480 16) (.getMem 100) :=
    ⟨by decide, fun h0 => absurd h0 (by decide), fun hge => absurd hge (by decide)⟩
  have h0 : Reach (Created 1 4096 20480 16) (step 1) (Sound 1) (newPool 20480 16) :=
    .start newPool_created
  obtain ⟨w, hw⟩ := Option.isSome_iff_exists.mp
    ((heap_invariant (by decide) (by decide) (by decide) h0).2 100 hok)
  exact ⟨w, hw, (heap_invariant (by decide) (by decide) (by decide) (h0.next hok hw)).1⟩

/-- Two requests of no bytes in a pool of 32 bytes, and the release of the second. -/
def trailerRun : List Act := [.getMem 0, .getMem 0, .freeMem 4128]

/-- **The trailer handed out.**  In a pool without a minimum allocation the second request of
no bytes is met with the trailer, since it counts as a block with no free bytes; its release
makes it a free block. -/
theorem trailer_freed : ¬ ∀ w, Reach (Created 1 4096 32 0) (step 1) SizesFit w →
    ∃ bs, Consistent 1 w bs := by
  intro hall
  obtain ⟨w, hrun, hfree, htr⟩ : ∃ w, run (step 1) (newPool 32 0) trailerRun = some w ∧
      w.heap.dm_memory_free 4112 = 1 ∧ (w.heap.pcb 1).trailer = 4112 := ⟨_, rfl, rfl, rfl⟩
  have hsizes : Along (step 1) SizesFit (newPool 32 0) trailerRun :=
    ⟨Nat.zero_le _, fun _ _ => ⟨Nat.zero_le _, fun _ _ => ⟨trivial, fun _ _ => trivial⟩⟩⟩
  obtain ⟨bs, hc⟩ := hall w (reach_run trailerRun (.start newPool_created) hsizes hrun)
  have hused := hc.trailer_used
  rw [htr, hfree] at hused
  cases hused

end Nl6621.Dmem
