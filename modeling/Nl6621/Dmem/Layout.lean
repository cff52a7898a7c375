import Nl6621.Dmem.Blocks

/-!
# What the two operations do to a pool

`Layout h pool bs` adds to the representation of the blocks what the control block of the
pool says about them: the free bytes, the search pointer, the minimum allocation.
`Layout.take` and `Layout.release` are the effects of `OS_GetMem` and `OS_FreeMem` on it.
The first puts the block handed out, and what is split off, in the place of a free block
(`taken`).  The second frees a block and merges it with free neighbours: each merge joins
two blocks, so the two merges are one lemma (`Layout.join`) used twice.
-/

namespace Nl6621.Dmem

open Lib

variable {h h' : Heap} {pool n : Nat} {b c : Piece} {bs l r : List Piece}

/-- The address of the trailer. -/
def DmPcb.trailer (p : DmPcb) : Nat := p.dm_start_address + p.dm_pool_size - 16

structure Layout (h : Heap) (pool : Nat) (bs : List Piece) : Prop where
  rep : Rep h pool (h.pcb pool).dm_start_address (h.pcb pool).trailer bs
  room : 32 ≤ (h.pcb pool).dm_pool_size
  inside : (h.pcb pool).dm_start_address + (h.pcb pool).dm_pool_size ≤ 2 ^ 32
  min4 : (h.pcb pool).dm_min_allocation % 4 = 0
  payload : ∀ b ∈ bs, b.size % 4 = 0 ∧ (h.pcb pool).dm_min_allocation ≤ b.size
  available : (h.pcb pool).dm_available = freeTotal bs
  search : (h.pcb pool).dm_search_ptr ∈ nodes bs (h.pcb pool).trailer
  list : (h.pcb pool).dm_memory_list = (h.pcb pool).dm_start_address

namespace Layout

/-- Everything lies below the end of the address space. -/
theorem trailer_lt (hl : Layout h pool bs) : (h.pcb pool).trailer < 2 ^ 32 := by
  have := hl.inside
  have := hl.room
  rw [DmPcb.trailer]
  omega

theorem start_le (hl : Layout h pool bs) :
    (h.pcb pool).dm_start_address + 16 ≤ (h.pcb pool).trailer := by
  have := hl.room
  rw [DmPcb.trailer]
  omega

theorem stop_le (hl : Layout h pool bs) (hb : b ∈ bs) :
    b.addr + 16 + b.size ≤ (h.pcb pool).trailer := (hl.rep.tiles.inside hb).2

theorem freeTotal_lt (hl : Layout h pool bs) : freeTotal bs + 16 * bs.length < 2 ^ 32 := by
  have := freeTotal_le hl.rep.tiles
  have := hl.trailer_lt
  omega

/-- A new list of blocks, with the free bytes and the search pointer to match. -/
theorem update (hl : Layout h pool bs) {bs' : List Piece} {avail sp : Nat}
    (hpcb : h'.pcb pool = { h.pcb pool with dm_available := avail, dm_search_ptr := sp })
    (hrep : Rep h' pool (h.pcb pool).dm_start_address (h.pcb pool).trailer bs')
    (hpay : ∀ b ∈ bs', b.size % 4 = 0 ∧ (h.pcb pool).dm_min_allocation ≤ b.size)
    (havail : avail = freeTotal bs') (hsp : sp ∈ nodes bs' (h.pcb pool).trailer) :
    Layout h' pool bs' := by
  have htr : (h'.pcb pool).trailer = (h.pcb pool).trailer := by rw [hpcb]; rfl
  refine ⟨?_, ?_, ?_, ?_, ?_, ?_, ?_, ?_⟩
  · rw [htr, hpcb]
    exact hrep
  · rw [hpcb]
    exact hl.room
  · rw [hpcb]
    exact hl.inside
  · rw [hpcb]
    exact hl.min4
  · rw [hpcb]
    exact hpay
  · rw [hpcb]
    exact havail
  · rw [htr, hpcb]
    exact hsp
  · rw [hpcb]
    exact hl.list

end Layout

theorem freeTotal_mid_free (hb : b.free = true) :
    freeTotal (l ++ b :: r) = freeTotal l + (b.size + freeTotal r) := by
  rw [freeTotal_append, freeTotal_cons_free hb]

theorem freeTotal_mid_used (hb : b.free = false) :
    freeTotal (l ++ b :: r) = freeTotal l + freeTotal r := by
  rw [freeTotal_append, freeTotal_cons_used hb]

/-! ### The control block -/

/-- Nothing but the free bytes and the search pointer differs. -/
def DmPcb.Same (p q : DmPcb) : Prop :=
  q = { p with dm_available := q.dm_available, dm_search_ptr := q.dm_search_ptr }

theorem DmPcb.Same.refl (p : DmPcb) : p.Same p := rfl

theorem DmPcb.Same.trans {p q o : DmPcb} (h : p.Same q) (h' : q.Same o) : p.Same o := by
  rw [DmPcb.Same] at *
  rw [h', h]

theorem DmPcb.Same.trailer {p q : DmPcb} (h : p.Same q) : q.trailer = p.trailer := by
  rw [h]
  rfl

theorem Heap.setPcb_same (h : Heap) (pool k : Nat) (available search : DmPcb → Nat) :
    (h.pcb k).Same ((h.setPcb pool fun p =>
      { p with dm_available := available p, dm_search_ptr := search p }).pcb k) := by
  by_cases hk : k = pool
  · subst hk
    simp only [Heap.setPcb, Function.update_self]
    rfl
  · simp only [Heap.setPcb, Function.update_of_ne hk]
    exact .refl _

theorem mergePrevious_same (h : Heap) (pool p k : Nat) :
    (h.pcb k).Same ((mergePrevious h pool p).1.pcb k) := by
  rw [mergePrevious]
  split
  · by_cases hk : k = pool
    · subst hk
      simp [DmPcb.Same, Heap.setPcb, Heap.setNext, Heap.setPrevious, Heap.store]
    · simp [DmPcb.Same, Heap.setPcb, Heap.setNext, Heap.setPrevious, Heap.store, hk]
  · exact .refl _

theorem mergeNext_same (h : Heap) (pool p k : Nat) :
    (h.pcb k).Same ((mergeNext h pool p).pcb k) := by
  rw [mergeNext]
  split
  · by_cases hk : k = pool
    · subst hk
      simp [DmPcb.Same, Heap.setPcb, Heap.setNext, Heap.setPrevious, Heap.store]
    · simp [DmPcb.Same, Heap.setPcb, Heap.setNext, Heap.setPrevious, Heap.store, hk]
  · exact .refl _

theorem splitBlock_pcb {p size : Nat} : (splitBlock h pool p size).pcb pool =
    { h.pcb pool with
      dm_available := sub32 (sub32 (h.pcb pool).dm_available size) DM_OVERHEAD } := by
  simp [splitBlock, Heap.setPcb, Heap.setNext, Heap.setPrevious, Heap.setFree, Heap.setPool,
    Heap.store]

theorem splitBlock_same (h : Heap) (pool p size k : Nat) :
    (h.pcb k).Same ((splitBlock h pool p size).pcb k) := by
  by_cases hk : k = pool
  · subst hk
    rw [splitBlock_pcb]
    rfl
  · simp [DmPcb.Same, splitBlock, Heap.setPcb, Heap.setNext, Heap.setPrevious, Heap.setFree,
      Heap.setPool, Heap.store, hk]

theorem takeBlock_same (h : Heap) (pool p size free_size k : Nat) :
    (h.pcb k).Same ((takeBlock h pool p size free_size).pcb k) := by
  rw [takeBlock]
  generalize hh : (if u32 (size + DM_OVERHEAD + (h.pcb pool).dm_min_allocation) ≤ free_size then
    splitBlock h pool p size
    else h.setPcb pool fun p => { p with dm_available := sub32 p.dm_available free_size }) = h₁
  have h1 : (h.pcb k).Same (h₁.pcb k) := by
    rw [← hh]
    split
    · exact splitBlock_same h pool p size k
    · exact h.setPcb_same pool k _ DmPcb.dm_search_ptr
  split
  · exact h1.trans (Heap.setPcb_same (h₁.setFree p 0) pool k DmPcb.dm_available _)
  · exact h1

/-! ### Taking a block -/

/-- The blocks in the place of the free block `b` when `n` bytes of it are handed out. -/
def taken (min_allocation : Nat) (b : Piece) (n : Nat) : List Piece :=
  if n + 16 + min_allocation ≤ b.size then
    [⟨b.addr, n, false⟩, ⟨b.addr + 16 + n, b.size - n - 16, true⟩]
  else [⟨b.addr, b.size, false⟩]

/-- The last part of `OS_GetMem`: the search pointer leaves a block that was taken. -/
theorem Layout.leave (hl : Layout h pool bs) {h₂ : Heap} {avail : Nat}
    (hpcb : h₂.pcb pool = { h.pcb pool with dm_available := avail })
    (hrep : Rep h₂ pool (h.pcb pool).dm_start_address (h.pcb pool).trailer (l ++ c :: r))
    (hpay : ∀ b ∈ l ++ c :: r, b.size % 4 = 0 ∧ (h.pcb pool).dm_min_allocation ≤ b.size)
    (havail : avail = freeTotal (l ++ c :: r))
    (hsp : (h.pcb pool).dm_search_ptr ∈ nodes (l ++ c :: r) (h.pcb pool).trailer) :
    Layout (if (h₂.pcb pool).dm_search_ptr = c.addr then
      h₂.setPcb pool fun p => { p with dm_search_ptr := h₂.dm_next_memory c.addr } else h₂)
      pool (l ++ c :: r) := by
  split
  · have hpcb' : (h₂.setPcb pool fun p =>
        { p with dm_search_ptr := h₂.dm_next_memory c.addr }).pcb pool =
          { h.pcb pool with dm_available := avail, dm_search_ptr := h₂.dm_next_memory c.addr } := by
      simp [Heap.setPcb, hpcb]
    refine hl.update hpcb' (hrep.of_mem rfl) hpay havail ?_
    obtain ⟨-, htr⟩ := hrep.tiles.around
    obtain ⟨-, hc, -⟩ := forall_mid.mp hrep.headers
    have hhead : c.addr + 16 + c.size ∈ nodes r (h.pcb pool).trailer :=
      List.mem_of_mem_head? (head_nodes htr)
    rw [hc.next, nodes, List.map_append, List.append_assoc]
    exact List.mem_append_right _ (.tail _ hhead)
  · exact hl.update hpcb hrep hpay havail hsp

theorem mem_nodes_mid {x e : Nat} :
    x ∈ nodes (l ++ b :: r) e ↔ x ∈ l.map Piece.addr ∨ x = b.addr ∨ x ∈ nodes r e := by
  simp [nodes]

theorem nodes_mark {e : Nat} (f : Bool) :
    nodes (l ++ { b with free := f } :: r) e = nodes (l ++ b :: r) e := by
  simp [nodes]

/-- **`OS_GetMem` on the block it has found.**  The sum of the sizes has to be a 32-bit
number for the test whether to split to mean what it says. -/
theorem Layout.take (hl : Layout h pool (l ++ b :: r)) (hb : b.free = true) (hn : n ≤ b.size)
    (hn4 : n % 4 = 0) (hmin : (h.pcb pool).dm_min_allocation ≤ n)
    (hsum : n + 16 + (h.pcb pool).dm_min_allocation < 2 ^ 32) :
    Layout (takeBlock h pool b.addr n b.size) pool
      (l ++ taken (h.pcb pool).dm_min_allocation b n ++ r) := by
  obtain ⟨hpl, hpb, hpr⟩ := forall_mid.mp hl.payload
  have htot := hl.freeTotal_lt
  have hav := hl.available
  rw [freeTotal_mid_free hb] at htot hav
  rw [takeBlock, DM_OVERHEAD, u32_of_lt hsum]
  by_cases hfit : n + 16 + (h.pcb pool).dm_min_allocation ≤ b.size
  · rw [taken, if_pos hfit, if_pos hfit]
    have hrep := (hl.rep.split (n := n) (by omega) hl.trailer_lt).mark false
    have hpcb : ((splitBlock h pool b.addr n).setFree b.addr 0).pcb pool = { h.pcb pool with
        dm_available := sub32 (sub32 (h.pcb pool).dm_available n) DM_OVERHEAD } := splitBlock_pcb
    have hpay : ∀ x ∈ l ++ ⟨b.addr, n, false⟩ :: ⟨b.addr + 16 + n, b.size - n - 16, true⟩ :: r,
        x.size % 4 = 0 ∧ (h.pcb pool).dm_min_allocation ≤ x.size := by
      refine forall_mid.mpr ⟨hpl, ⟨hn4, hmin⟩, List.forall_mem_cons.mpr ⟨⟨?_, ?_⟩, hpr⟩⟩
      · simp only
        omega
      · simp only
        omega
    have hfree : sub32 (sub32 (h.pcb pool).dm_available n) DM_OVERHEAD =
        freeTotal (l ++ ⟨b.addr, n, false⟩ :: ⟨b.addr + 16 + n, b.size - n - 16, true⟩ :: r) := by
      have hsub : sub32 (h.pcb pool).dm_available n = (h.pcb pool).dm_available - n :=
        sub32_of_le (by omega) (by omega)
      rw [hsub, DM_OVERHEAD, sub32_of_le (by omega) (by omega), freeTotal_mid_used rfl,
        freeTotal_cons_free rfl]
      simp only
      omega
    have hsp : (h.pcb pool).dm_search_ptr ∈
        nodes (l ++ ⟨b.addr, n, false⟩ :: ⟨b.addr + 16 + n, b.size - n - 16, true⟩ :: r)
          (h.pcb pool).trailer := by
      rcases mem_nodes_mid.mp hl.search with hs | hs | hs
      · exact mem_nodes_mid.mpr (.inl hs)
      · exact mem_nodes_mid.mpr (.inr (.inl hs))
      · exact mem_nodes_mid.mpr (.inr (.inr (.tail _ hs)))
    have hdone := hl.leave hpcb hrep hpay hfree hsp
    simpa using hdone
  · rw [taken, if_neg hfit, if_neg hfit]
    have hrep := hl.rep.mark false
    have hpcb : (((h.setPcb pool fun p =>
        { p with dm_available := sub32 p.dm_available b.size }).setFree
        b.addr 0).pcb pool) =
          { h.pcb pool with dm_available := sub32 (h.pcb pool).dm_available b.size } :=
      Function.update_self _ _ _
    have hpay : ∀ x ∈ l ++ { b with free := false } :: r,
        x.size % 4 = 0 ∧ (h.pcb pool).dm_min_allocation ≤ x.size :=
      forall_mid.mpr ⟨hpl, hpb, hpr⟩
    have hfree : sub32 (h.pcb pool).dm_available b.size =
        freeTotal (l ++ { b with free := false } :: r) := by
      rw [freeTotal_mid_used rfl, hav, sub32_of_le (by omega) (by omega)]
      omega
    have hsp : (h.pcb pool).dm_search_ptr ∈
        nodes (l ++ { b with free := false } :: r) (h.pcb pool).trailer := by
      rw [nodes_mark]
      exact hl.search
    have hdone := hl.leave hpcb (hrep.of_mem rfl) hpay hfree hsp
    simpa using hdone

/-! ### The outcome of `OS_GetMem` -/

/-- A header whose flag is set is that of a free block. -/
theorem Layout.block_of_free (hl : Layout h pool bs) {x : Nat}
    (hx : x ∈ nodes bs (h.pcb pool).trailer) (hf : h.dm_memory_free x ≠ 0) :
    ∃ b ∈ bs, b.addr = x ∧ b.free = true ∧ freeSize h x = b.size := by
  rcases mem_nodes.mp hx with ⟨b, hb, rfl⟩ | rfl
  · have hhead := hl.rep.headers b hb
    have hfree : b.free = true := by
      rw [hhead.free] at hf
      cases hbf : b.free with
      | true => rfl
      | false => exact absurd (by rw [hbf]; rfl) hf
    have hlt := hl.stop_le hb
    have := hl.trailer_lt
    refine ⟨b, hb, rfl, hfree, ?_⟩
    rw [freeSize_block hhead (by omega), if_pos hfree]
  · exact absurd hl.rep.free_trailer hf

theorem Layout.freeSize_le (hl : Layout h pool bs) (hb : b ∈ bs) (hf : b.free = true) :
    freeSize h b.addr = b.size := by
  have hlt := hl.stop_le hb
  have := hl.trailer_lt
  rw [freeSize_block (hl.rep.headers b hb) (by omega), if_pos hf]

theorem Layout.length_lt (hl : Layout h pool bs) : bs.length < (h.pcb pool).dm_pool_size := by
  have h1 := hl.rep.tiles.length_le
  have h2 := hl.room
  rw [DmPcb.trailer] at h1
  omega

theorem osGetMem_eq {size x f : Nat}
    (hloop : searchLoop h (h.pcb pool).dm_search_ptr (adjust (h.pcb pool).dm_min_allocation size)
      (h.pcb pool).dm_pool_size (h.pcb pool).dm_search_ptr = some (x, f)) :
    osGetMem h pool size =
      some (if adjust (h.pcb pool).dm_min_allocation size ≤ f then
        (takeBlock h pool x (adjust (h.pcb pool).dm_min_allocation size) f, OS_ERR_NONE,
          u32 (x + DM_OVERHEAD))
      else (h, OS_ERR_MEM_FULL, 0)) := by
  simp only [osGetMem, hloop, Option.map_some]

/-- **How the search ends**: at a free block that is large enough, or back at the search pointer
because there is none.  A search for no bytes ends at the search pointer at once, so that the block
there has to be free. -/
theorem Layout.search_cases (hl : Layout h pool bs) (n : Nat)
    (hzero : n = 0 → h.dm_memory_free (h.pcb pool).dm_search_ptr ≠ 0) :
    (∃ b ∈ bs, b.free = true ∧ n ≤ b.size ∧
      searchLoop h (h.pcb pool).dm_search_ptr n (h.pcb pool).dm_pool_size
        (h.pcb pool).dm_search_ptr = some (b.addr, b.size)) ∨
    ((∀ b ∈ bs, b.free = true → b.size < n) ∧ ∃ m < n,
      searchLoop h (h.pcb pool).dm_search_ptr n (h.pcb pool).dm_pool_size
        (h.pcb pool).dm_search_ptr = some ((h.pcb pool).dm_search_ptr, m)) := by
  by_cases h0 : n = 0
  · obtain ⟨k, hk⟩ : ∃ k, (h.pcb pool).dm_pool_size = k + 1 :=
      ⟨_, (Nat.succ_pred_eq_of_pos (by have := hl.room; omega)).symm⟩
    obtain ⟨b, hb, haddr, hfree, hsize⟩ := hl.block_of_free hl.search (hzero h0)
    refine .inl ⟨b, hb, hfree, by omega, ?_⟩
    rw [hk, searchLoop, if_neg (by omega), hsize, haddr]
  rcases hl.rep.search hl.search n hl.length_lt with ⟨x, hx, hle, hloop⟩ | ⟨hall, m, hm, hloop⟩
  · have hf : h.dm_memory_free x ≠ 0 := fun hf => by
      rw [freeSize, if_neg (by simp [hf])] at hle
      omega
    obtain ⟨b, hb, rfl, hfree, hsize⟩ := hl.block_of_free hx hf
    rw [hsize] at hle hloop
    exact .inl ⟨b, hb, hfree, hle, hloop⟩
  · refine .inr ⟨fun b hb hf => ?_, m, hm, hloop⟩
    have hx := hall b.addr (mem_nodes.mpr (.inl ⟨b, hb, rfl⟩))
    rwa [hl.freeSize_le hb hf] at hx

/-- **What `OS_GetMem` does**: it hands out a free block that is large enough, or fails
because there is none.  A request of no bytes takes the block at the search pointer, so that
this one has to be free. -/
theorem Layout.getMem_cases (hl : Layout h pool bs) (size : Nat)
    (hzero : adjust (h.pcb pool).dm_min_allocation size = 0 →
      h.dm_memory_free (h.pcb pool).dm_search_ptr ≠ 0) :
    (∃ b ∈ bs, b.free = true ∧ adjust (h.pcb pool).dm_min_allocation size ≤ b.size ∧
      osGetMem h pool size =
        some (takeBlock h pool b.addr (adjust (h.pcb pool).dm_min_allocation size) b.size,
          OS_ERR_NONE, b.addr + 16)) ∨
    ((∀ b ∈ bs, b.free = true → b.size < adjust (h.pcb pool).dm_min_allocation size) ∧
      osGetMem h pool size = some (h, OS_ERR_MEM_FULL, 0)) := by
  rcases hl.search_cases _ hzero with ⟨b, hb, hfree, hle, hloop⟩ | ⟨hall, m, hm, hloop⟩
  · have h1 := hl.stop_le hb
    have h2 := hl.trailer_lt
    refine .inl ⟨b, hb, hfree, hle, ?_⟩
    rw [osGetMem_eq hloop, if_pos hle, DM_OVERHEAD, u32_of_lt (by omega)]
  · refine .inr ⟨hall, ?_⟩
    rw [osGetMem_eq hloop, if_neg (by omega)]

/-! ### Releasing a block -/

/-- **Merge two free neighbours.** -/
theorem Layout.join (hl : Layout h pool (l ++ b :: c :: r)) (hb : b.free = true) (hc : c.free = true)
    (hm : ∀ x, h'.mem x = if x = b.addr then c.addr + 16 + c.size
      else if x = c.addr + 16 + c.size + 4 then b.addr else h.mem x)
    (hpcb : h'.pcb pool = { h.pcb pool with
      dm_available := u32 ((h.pcb pool).dm_available + DM_OVERHEAD), dm_search_ptr := b.addr }) :
    Layout h' pool (l ++ ⟨b.addr, b.size + 16 + c.size, true⟩ :: r) := by
  obtain ⟨hpl, hpb, hpr⟩ := forall_mid.mp hl.payload
  obtain ⟨hpc, hpr⟩ := List.forall_mem_cons.mp hpr
  have hrep := hl.rep.join hm
  rw [hb] at hrep
  have htot := hl.freeTotal_lt
  have hav := hl.available
  rw [freeTotal_mid_free hb, freeTotal_cons_free hc] at htot hav
  simp only [List.length_append, List.length_cons] at htot
  refine hl.update hpcb hrep (forall_mid.mpr ⟨hpl, ⟨?_, ?_⟩, hpr⟩) ?_ ?_
  · simp only
    omega
  · simp only
    omega
  · rw [freeTotal_mid_free rfl, DM_OVERHEAD, u32_of_lt (by omega)]
    simp only
    omega
  · exact mem_nodes_mid.mpr (.inr (.inl rfl))

/-- The writes of a merge with the previous block `p`. -/
theorem mergePrevious_eq (pool : Nat) {p q z : Nat} (hprev : h.mem (q + 4) = p) (hnext : h.mem q = z)
    (hfree : h.mem (p + 8) ≠ 0) (h1 : p + 16 ≤ q) (h2 : q + 16 ≤ z) :
    (mergePrevious h pool q).2 = p ∧
    (∀ x, (mergePrevious h pool q).1.mem x =
      if x = p then z else if x = z + 4 then p else h.mem x) ∧
    (mergePrevious h pool q).1.pcb pool = { h.pcb pool with
      dm_available := u32 ((h.pcb pool).dm_available + DM_OVERHEAD), dm_search_ptr := p } := by
  have hq : q ≠ p := by omega
  have hq4 : q + 4 ≠ p := by omega
  have hz : q + 4 ≠ z + 4 := by omega
  have heq : mergePrevious h pool q =
      (((((h.setPcb pool fun c =>
        { c with dm_available := u32 (c.dm_available + DM_OVERHEAD) }).setNext
        p z).setPrevious z p).setPcb pool fun c => { c with dm_search_ptr := p }), p) := by
    simp only [mergePrevious, Heap.dm_memory_free, Heap.dm_previous_memory, Heap.dm_next_memory,
      Heap.setPcb, Heap.setNext, Heap.setPrevious, Heap.store, hprev, hnext, if_pos hfree,
      Function.update_of_ne hq, Function.update_of_ne hq4, Function.update_of_ne hz]
  rw [heq]
  refine ⟨rfl, fun x => ?_, ?_⟩
  · simp only [Heap.setPcb, Heap.setNext, Heap.setPrevious, Heap.store, Function.update_apply]
    by_cases hx : x = p
    · rw [if_pos hx, if_pos hx, if_neg (by omega)]
    · rw [if_neg hx, if_neg hx]
  · simp [Heap.setPcb, Heap.setNext, Heap.setPrevious, Heap.store]

/-- The writes of a merge with the next block, which ends at `z`. -/
theorem mergeNext_eq (pool : Nat) {p q z : Nat} (hnext : h.mem p = q) (hnext' : h.mem q = z)
    (hfree : h.mem (q + 8) ≠ 0) (hlt : q + 16 ≤ z) :
    (∀ x, (mergeNext h pool p).mem x = if x = p then z else if x = z + 4 then p else h.mem x) ∧
    (mergeNext h pool p).pcb pool = { h.pcb pool with
      dm_available := u32 ((h.pcb pool).dm_available + DM_OVERHEAD), dm_search_ptr := p } := by
  have hq : q ≠ z + 4 := by omega
  have heq : mergeNext h pool p =
      ((((h.setPcb pool fun c =>
        { c with dm_available := u32 (c.dm_available + DM_OVERHEAD) }).setPrevious
        z p).setNext p z).setPcb pool fun c => { c with dm_search_ptr := p }) := by
    simp only [mergeNext, Heap.dm_memory_free, Heap.dm_next_memory, Heap.setPcb, Heap.setNext,
      Heap.setPrevious, Heap.store, hnext, hnext', if_pos hfree, Function.update_of_ne hq]
  rw [heq]
  refine ⟨fun x => ?_, ?_⟩
  · simp only [Heap.setPcb, Heap.setNext, Heap.setPrevious, Heap.store, Function.update_apply]
  · simp [Heap.setPcb, Heap.setNext, Heap.setPrevious, Heap.store]

theorem mergePrevious_used {p : Nat} (hf : h.dm_memory_free (h.dm_previous_memory p) = 0) :
    mergePrevious h pool p = (h, p) := by
  rw [mergePrevious, if_neg (by simp [hf])]

theorem mergeNext_used {p : Nat} (hf : h.dm_memory_free (h.dm_next_memory p) = 0) :
    mergeNext h pool p = h := by
  rw [mergeNext, if_neg (by simp [hf])]

/-- **The merge with the previous neighbour**: the block before the result is in use.  Behind
the links of the trailer nothing changes. -/
theorem Layout.mergePrevious (hl : Layout h pool (l ++ b :: r)) (hb : b.free = true)
    (hs : Separate l) :
    ∃ l' c, Layout (mergePrevious h pool b.addr).1 pool (l' ++ c :: r) ∧
      (mergePrevious h pool b.addr).2 = c.addr ∧ c.free = true ∧ used l' = used l ∧
      Separate l' ∧ (∀ d ∈ l'.getLast?, d.free = false) ∧
      ∀ x, (h.pcb pool).trailer + 4 < x → (mergePrevious h pool b.addr).1.mem x = h.mem x := by
  obtain ⟨htl, htr⟩ := hl.rep.tiles.around
  rcases List.eq_nil_or_concat l with rfl | ⟨l₀, c, rfl⟩
  · have hfirst : (h.pcb pool).dm_start_address = b.addr := htl
    have hprev : h.dm_previous_memory b.addr = (h.pcb pool).trailer := by
      rw [← hfirst]
      exact hl.rep.previous_first
    rw [mergePrevious_used (by rw [hprev]; exact hl.rep.free_trailer)]
    exact ⟨[], b, hl, rfl, hb, rfl, hs, fun d hd => (nomatch hd), fun x _ => rfl⟩
  · rw [List.concat_eq_append] at *
    obtain ⟨m, -, hcm, hcb⟩ := Tiles.append.mp htl
    have hend : c.addr + 16 + c.size = b.addr := by rw [hcm]; exact hcb
    rw [List.append_assoc, List.singleton_append] at hl
    have hc := hl.rep.headers c (by simp)
    have hbh := hl.rep.headers b (by simp)
    have hprev : h.dm_previous_memory b.addr = c.addr := by rw [← hend]; exact hc.previous
    cases hcf : c.free with
    | false =>
      rw [mergePrevious_used (by rw [hprev, hc.free, hcf]; rfl)]
      refine ⟨l₀ ++ [c], b, by simpa using hl, rfl, hb, rfl, hs, fun d hd => ?_, fun x _ => rfl⟩
      simp at hd
      rw [← hd]
      exact hcf
    | true =>
      have hfree : h.mem (c.addr + 8) ≠ 0 := by
        have hf : h.mem (c.addr + 8) = c.free.toNat := hc.free
        rw [hf, hcf]
        simp
      obtain ⟨hp, hm, hpcb⟩ := mergePrevious_eq pool hprev hbh.next hfree (by omega) (by omega)
      obtain ⟨hs₀, -, hlast⟩ := separate_append.mp hs
      refine ⟨l₀, ⟨c.addr, c.size + 16 + b.size, true⟩, hl.join hcf hb hm hpcb, hp, rfl, ?_, hs₀, ?_,
        ?_⟩
      · rw [used_append, used_cons_free hcf]
        simp [used]
      · intro d hd
        have := hlast d hd c rfl
        simpa [hcf] using this
      · intro x hx
        have := hl.stop_le (b := b) (by simp)
        rw [hm, if_neg (by omega), if_neg (by omega)]

/-- **The merge with the next neighbour**: the block behind the result is in use. -/
theorem Layout.mergeNext (hl : Layout h pool (l ++ b :: r)) (hb : b.free = true)
    (hs : Separate r) :
    ∃ c r', Layout (mergeNext h pool b.addr) pool (l ++ c :: r') ∧ c.free = true ∧
      used r' = used r ∧ Separate r' ∧ (∀ d ∈ r'.head?, d.free = false) ∧
      ∀ x, (h.pcb pool).trailer + 4 < x → (mergeNext h pool b.addr).mem x = h.mem x := by
  obtain ⟨-, htr⟩ := hl.rep.tiles.around
  have hbh := hl.rep.headers b (by simp)
  cases r with
  | nil =>
    have hlast : b.addr + 16 + b.size = (h.pcb pool).trailer := htr
    have hnext : h.dm_next_memory b.addr = (h.pcb pool).trailer := by rw [hbh.next, hlast]
    rw [mergeNext_used (by rw [hnext]; exact hl.rep.free_trailer)]
    exact ⟨b, [], hl, hb, rfl, hs, fun d hd => (nomatch hd), fun x _ => rfl⟩
  | cons c r =>
    have hc := hl.rep.headers c (by simp)
    have hnext : h.dm_next_memory b.addr = c.addr := by rw [hbh.next, htr.1]
    cases hcf : c.free with
    | false =>
      rw [mergeNext_used (by rw [hnext, hc.free, hcf]; rfl)]
      refine ⟨b, c :: r, hl, hb, rfl, hs, fun d hd => ?_, fun x _ => rfl⟩
      cases hd
      exact hcf
    | true =>
      have hfree : h.mem (c.addr + 8) ≠ 0 := by
        have hf : h.mem (c.addr + 8) = c.free.toNat := hc.free
        rw [hf, hcf]
        simp
      have hge := htr.1
      obtain ⟨hm, hpcb⟩ := mergeNext_eq pool hnext hc.next hfree (by omega)
      obtain ⟨hhead, hs'⟩ := separate_cons.mp hs
      refine ⟨⟨b.addr, b.size + 16 + c.size, true⟩, r, hl.join hb hcf hm hpcb, rfl, ?_, hs', ?_, ?_⟩
      · rw [used_cons_free hcf]
      · intro d hd
        have := hhead d hd
        simpa [hcf] using this
      · intro x hx
        have := hl.stop_le (b := c) (by simp)
        rw [hm, if_neg (by omega), if_neg (by omega)]

/-- A block is marked free and its bytes are counted. -/
theorem Layout.markFree (hl : Layout h pool (l ++ b :: r)) (hb : b.free = false)
    (hpcb : h'.pcb pool = { h.pcb pool with
      dm_available := sub32 (u32 ((h.pcb pool).dm_available +
        sub32 (b.addr + 16 + b.size) b.addr)) DM_OVERHEAD })
    (hm : h'.mem = (h.setFree b.addr 1).mem) :
    Layout h' pool (l ++ { b with free := true } :: r) := by
  obtain ⟨hpl, hpb, hpr⟩ := forall_mid.mp hl.payload
  have hrep : Rep h' pool (h.pcb pool).dm_start_address (h.pcb pool).trailer
      (l ++ { b with free := true } :: r) := (hl.rep.mark true).of_mem hm
  have htot := freeTotal_le hrep.tiles
  have hlt := hl.trailer_lt
  have hstop := hl.stop_le (b := b) (by simp)
  have hav := hl.available
  rw [freeTotal_mid_used hb] at hav
  rw [freeTotal_mid_free rfl] at htot
  simp only [List.length_append, List.length_cons] at htot
  refine hl.update hpcb hrep (forall_mid.mpr ⟨hpl, hpb, hpr⟩) ?_ ?_
  · have hlen : sub32 (b.addr + 16 + b.size) b.addr = 16 + b.size := by
      rw [sub32_of_le (by omega) (by omega)]
      omega
    rw [freeTotal_mid_free rfl, hlen, u32_of_lt (by omega), DM_OVERHEAD,
      sub32_of_le (by omega) (by omega)]
    simp only
    omega
  · rw [nodes_mark]
    exact hl.search

/-- **`OS_FreeMem` on a block in use.** -/
theorem Layout.release (hl : Layout h pool (l ++ b :: r)) (hs : Separate (l ++ b :: r))
    (hb : b.free = false) :
    ∃ bs, Layout (osFreeMem h (b.addr + 16)).1 pool bs ∧ Separate bs ∧
      used bs = used l ++ used r ∧
      (h.pcb pool).Same ((osFreeMem h (b.addr + 16)).1.pcb pool) ∧
      ∀ x, (h.pcb pool).trailer + 4 < x → (osFreeMem h (b.addr + 16)).1.mem x = h.mem x := by
  obtain ⟨hsl, hsr, -, -⟩ := separate_mid.mp hs
  have hbh := hl.rep.headers b (by simp)
  have hlt := hl.trailer_lt
  have hstop := hl.stop_le (b := b) (by simp)
  have haddr : sub32 (b.addr + 16) DM_OVERHEAD = b.addr := by
    rw [DM_OVERHEAD, sub32_of_le (by omega) (by omega)]
    omega
  have hnext : (h.setFree b.addr 1).dm_next_memory b.addr = b.addr + 16 + b.size :=
    (Function.update_of_ne (by simp) _ _).trans hbh.next
  rw [osFreeMem]
  simp only [haddr, hbh.pool, hnext]
  generalize hh₁ : (h.setFree b.addr 1).setPcb pool _ = h₁
  have hl₁ : Layout h₁ pool (l ++ { b with free := true } :: r) := by
    refine hl.markFree hb ?_ ?_
    · rw [← hh₁]
      exact Function.update_self _ _ _
    · rw [← hh₁]
      rfl
  obtain ⟨l', c, hl₂, hc, hcf, hul, hsl', hlast, hmem₂⟩ := hl₁.mergePrevious rfl hsl
  simp only at hc
  rw [hc]
  obtain ⟨d, r', hl₃, hdf, hur, hsr', hhead, hmem₃⟩ := hl₂.mergeNext hcf hsr
  have hsame : (h.pcb pool).Same (h₁.pcb pool) := by
    rw [← hh₁]
    exact Heap.setPcb_same (h.setFree b.addr 1) pool pool _ DmPcb.dm_search_ptr
  have hsame₂ := hsame.trans (mergePrevious_same h₁ pool b.addr pool)
  refine ⟨l' ++ d :: r', hl₃, separate_mid.mpr ⟨hsl', hsr', ?_, ?_⟩, ?_,
    hsame₂.trans (mergeNext_same _ pool c.addr pool), ?_⟩
  · intro x hx hf
    rw [hlast x hx] at hf
    cases hf.1
  · intro x hx hf
    rw [hhead x hx] at hf
    cases hf.2
  · rw [used_append, used_cons_free hdf, hul, hur]
  · intro x hx
    have htr₁ := hsame.trailer
    have htr₂ : ((Dmem.mergePrevious h₁ pool { b with free := true }.addr).1.pcb pool).trailer =
        (h.pcb pool).trailer := hsame₂.trailer
    have hx₁ : h₁.mem x = h.mem x := by
      rw [← hh₁]
      exact Function.update_of_ne (by omega) _ _
    rw [hmem₃ x (by omega), hmem₂ x (by omega), hx₁]

end Nl6621.Dmem
