import Nl6621.Dmem.Invariant

/-!
# The search for a free block

`OS_GetMem` walks the circular list from the search pointer.  `searchLoop_first` says that the
block it stops at is the first one with enough free bytes, and `Served` what a request should come
to: it fails only if no block of the list is sufficient, and otherwise takes the first sufficient
one.

A block in use counts as one with no free bytes, and a request whose adjusted size is zero is
content with it.  `served_iff` says that this is the only way for a request to be served wrongly.
-/

namespace Nl6621.Dmem

open Lib

variable {h : Heap} {pool n : Nat} {b : Piece} {bs : List Piece} {w : World}

/-- The search has passed over blocks without enough free bytes only. -/
theorem searchLoop_first {sp size : Nat} : ∀ {k p x f : Nat},
    searchLoop h sp size k p = some (x, f) → size ≤ f →
      ∃ j, h.dm_next_memory^[j] p = x ∧ ∀ i < j, freeSize h (h.dm_next_memory^[i] p) < size := by
  intro k
  induction k with
  | zero => intro p x f hloop; cases hloop
  | succ k ih =>
    intro p x f hloop hle
    rw [searchLoop] at hloop
    by_cases hp : freeSize h p < size
    · rw [if_pos hp] at hloop
      by_cases hend : h.dm_next_memory p ≠ sp
      · rw [if_pos hend] at hloop
        obtain ⟨j, hj, hall⟩ := ih hloop hle
        refine ⟨j + 1, hj, fun i hi => ?_⟩
        cases i with
        | zero => exact hp
        | succ i => exact hall i (by omega)
      · rw [if_neg hend] at hloop
        cases hloop
        exact absurd hp (by omega)
    · rw [if_neg hp] at hloop
      cases hloop
      exact ⟨0, rfl, fun i hi => absurd hi (Nat.not_lt_zero i)⟩

/-! ### What a request should come to -/

/-- The block at `x` is free and has a payload of at least `n` bytes. -/
def Sufficient (h : Heap) (n x : Nat) : Prop :=
  h.dm_memory_free x ≠ 0 ∧ x + DM_OVERHEAD + n ≤ h.dm_next_memory x

/-- The rounded size of a request, in unbounded numbers. -/
def rounded (min_allocation size : Nat) : Nat := max min_allocation ((size + 3) / 4 * 4)

theorem adjust_eq_rounded {min size : Nat} (hmin : min % 4 = 0) (hs : size ≤ 0xFFFFFFFC) :
    adjust min size = rounded min size := by
  rw [adjust, rounded]
  split
  · omega
  · rw [roundUp, u32_of_lt (by omega)]
    omega

/-- A request of `size` bytes: the search ends; the request fails only if no block of the list is
sufficient, and then changes nothing; otherwise it takes the first block that is, from the search
pointer on. -/
def Served (pool : Nat) (w : World) (size : Nat) : Prop :=
  let p := w.heap.pcb pool
  let n := rounded p.dm_min_allocation size
  ∃ h' status return_pointer, osGetMem w.heap pool size = some (h', status, return_pointer) ∧
    (status = OS_ERR_NONE ∨ status = OS_ERR_MEM_FULL) ∧
    (status = OS_ERR_MEM_FULL ↔
      ∀ k, ¬Sufficient w.heap n (w.heap.dm_next_memory^[k] p.dm_memory_list)) ∧
    (status = OS_ERR_MEM_FULL → h' = w.heap ∧ return_pointer = 0) ∧
    (status = OS_ERR_NONE → ∃ k,
      Sufficient w.heap n (w.heap.dm_next_memory^[k] p.dm_search_ptr) ∧
      (∀ i < k, ¬Sufficient w.heap n (w.heap.dm_next_memory^[i] p.dm_search_ptr)) ∧
      return_pointer = w.heap.dm_next_memory^[k] p.dm_search_ptr + DM_OVERHEAD)

/-! ### The headers of the list -/

theorem Layout.iterate_mem (hl : Layout h pool bs) {x : Nat}
    (hx : x ∈ nodes bs (h.pcb pool).trailer) (k : Nat) :
    h.dm_next_memory^[k] x ∈ nodes bs (h.pcb pool).trailer := by
  have hperm : ((h.pcb pool).trailer :: bs.map Piece.addr).Perm (nodes bs (h.pcb pool).trailer) :=
    (List.perm_append_singleton _ _).symm
  rw [← hperm.mem_iff] at hx ⊢
  exact hl.rep.ring.iterate_mem hx k

theorem Layout.list_mem (hl : Layout h pool bs) :
    (h.pcb pool).dm_memory_list ∈ nodes bs (h.pcb pool).trailer := by
  rw [hl.list]
  exact List.mem_of_mem_head? (head_nodes hl.rep.tiles)

theorem Layout.node_lt (hl : Layout h pool bs) {x : Nat}
    (hx : x ∈ nodes bs (h.pcb pool).trailer) : x + 16 ≤ 2 ^ 32 := by
  have hroom := hl.room
  have hinside := hl.inside
  rcases mem_nodes.mp hx with ⟨b, hb, rfl⟩ | rfl
  · have hstop := hl.stop_le hb
    rw [DmPcb.trailer] at hstop
    omega
  · rw [DmPcb.trailer]
    omega

/-- A header of the list is that of a sufficient block. -/
theorem Layout.sufficient_iff (hl : Layout h pool bs) {x : Nat}
    (hx : x ∈ nodes bs (h.pcb pool).trailer) :
    Sufficient h n x ↔ ∃ b ∈ bs, b.addr = x ∧ b.free = true ∧ n ≤ b.size := by
  constructor
  · rintro ⟨hf, hle⟩
    obtain ⟨b, hb, rfl, hfree, -⟩ := hl.block_of_free hx hf
    rw [(hl.rep.headers b hb).next, DM_OVERHEAD] at hle
    exact ⟨b, hb, rfl, hfree, by omega⟩
  · rintro ⟨b, hb, rfl, hfree, hle⟩
    have hhead := hl.rep.headers b hb
    refine ⟨?_, ?_⟩
    · rw [hhead.free, hfree]
      decide
    · rw [hhead.next, DM_OVERHEAD]
      omega

/-! ### When a request is served -/

/-- No block is sufficient when no header of the list is that of one. -/
theorem Layout.none_sufficient (hl : Layout h pool bs) :
    (∀ k, ¬Sufficient h n (h.dm_next_memory^[k] (h.pcb pool).dm_memory_list)) ↔
      ∀ b ∈ bs, b.free = true → b.size < n := by
  constructor
  · intro hall b hb hfree
    obtain ⟨k, hk⟩ := hl.exists_iterate hb
    by_contra hge
    refine hall k ?_
    rw [hk]
    exact (hl.sufficient_iff (mem_nodes.mpr (Or.inl ⟨b, hb, rfl⟩))).mpr
      ⟨b, hb, rfl, hfree, Nat.le_of_not_lt hge⟩
  · intro hall k hk
    obtain ⟨b, hb, -, hfree, hle⟩ := (hl.sufficient_iff (hl.iterate_mem hl.list_mem k)).mp hk
    exact absurd hle (Nat.not_le_of_lt (hall b hb hfree))

/-- A search that ends at a free block has found the first sufficient one. -/
theorem Layout.first_sufficient (hl : Layout h pool bs) {k : Nat} (hb : b ∈ bs)
    (hfree : b.free = true) (hle : n ≤ b.size)
    (hloop : searchLoop h (h.pcb pool).dm_search_ptr n k (h.pcb pool).dm_search_ptr =
      some (b.addr, b.size)) :
    ∃ j, h.dm_next_memory^[j] (h.pcb pool).dm_search_ptr = b.addr ∧
      Sufficient h n b.addr ∧
      ∀ i < j, ¬Sufficient h n (h.dm_next_memory^[i] (h.pcb pool).dm_search_ptr) := by
  obtain ⟨j, hj, hfirst⟩ := searchLoop_first hloop hle
  refine ⟨j, hj, (hl.sufficient_iff (mem_nodes.mpr (Or.inl ⟨b, hb, rfl⟩))).mpr
    ⟨b, hb, rfl, hfree, hle⟩, fun i hi hsuff => ?_⟩
  obtain ⟨c, hc, hca, hcf, hcl⟩ := (hl.sufficient_iff (hl.iterate_mem hl.search i)).mp hsuff
  have hlt := hfirst i hi
  rw [← hca, hl.freeSize_le hc hcf] at hlt
  exact absurd hcl (Nat.not_le_of_lt hlt)

theorem Layout.served (hl : Layout w.heap pool bs) {size : Nat} (hs : size ≤ 0xFFFFFFFC)
    (hzero : adjust (w.heap.pcb pool).dm_min_allocation size = 0 →
      w.heap.dm_memory_free (w.heap.pcb pool).dm_search_ptr ≠ 0) : Served pool w size := by
  have hn := adjust_eq_rounded hl.min4 hs
  have herr : OS_ERR_NONE ≠ OS_ERR_MEM_FULL := by decide
  rw [Served]
  simp only [← hn, hl.none_sufficient]
  rcases hl.search_cases _ hzero with ⟨b, hb, hfree, hle, hloop⟩ | ⟨hall, m, hm, hloop⟩
  · have hlt := hl.stop_le hb
    have htrailer := hl.trailer_lt
    obtain ⟨j, hj, hsuff, hfirst⟩ := hl.first_sufficient hb hfree hle hloop
    have heq := osGetMem_eq hloop
    rw [if_pos hle] at heq
    refine ⟨_, _, _, heq, Or.inl rfl, iff_of_false herr fun hall => ?_,
      fun h => absurd h herr, fun _ => ⟨j, hj.symm ▸ hsuff, hfirst, ?_⟩⟩
    · exact absurd hle (Nat.not_le_of_lt (hall b hb hfree))
    · rw [hj, DM_OVERHEAD, u32_of_lt (by omega)]
  · have heq := osGetMem_eq hloop
    rw [if_neg (Nat.not_le_of_lt hm)] at heq
    exact ⟨_, _, _, heq, Or.inr rfl, iff_of_true rfl hall, fun _ => ⟨rfl, rfl⟩,
      fun h => absurd h.symm herr⟩

/-- A request of no bytes takes the block at the search pointer. -/
theorem Layout.free_of_served (hl : Layout w.heap pool bs) {size : Nat} (hs : size ≤ 0xFFFFFFFC)
    (hsv : Served pool w size) (h0 : adjust (w.heap.pcb pool).dm_min_allocation size = 0) :
    w.heap.dm_memory_free (w.heap.pcb pool).dm_search_ptr ≠ 0 := by
  have hn := adjust_eq_rounded hl.min4 hs
  obtain ⟨k, hk⟩ : ∃ k, (w.heap.pcb pool).dm_pool_size = k + 1 :=
    ⟨_, (Nat.succ_pred_eq_of_pos (by have := hl.room; omega)).symm⟩
  have hloop : searchLoop w.heap (w.heap.pcb pool).dm_search_ptr
      (adjust (w.heap.pcb pool).dm_min_allocation size) (w.heap.pcb pool).dm_pool_size
      (w.heap.pcb pool).dm_search_ptr =
      some ((w.heap.pcb pool).dm_search_ptr, freeSize w.heap (w.heap.pcb pool).dm_search_ptr) := by
    rw [hk, searchLoop, if_neg (by omega)]
  obtain ⟨h', status, return_pointer, heq, -, -, -, htaken⟩ := hsv
  rw [osGetMem_eq hloop, if_pos (by omega)] at heq
  cases heq
  obtain ⟨j, hsuff, -, hptr⟩ := htaken rfl
  have hmem := hl.iterate_mem hl.search j
  have hlt := hl.node_lt hl.search
  have hlt' := hl.node_lt hmem
  have hsame : w.heap.dm_next_memory^[j] (w.heap.pcb pool).dm_search_ptr =
      (w.heap.pcb pool).dm_search_ptr := by
    rw [u32, DM_OVERHEAD] at hptr
    omega
  rw [hsame] at hsuff
  exact hsuff.1

/-- **When a request is served**: if it is not one for no bytes that finds a block in use at the
search pointer. -/
theorem served_iff {start pool_size min : Nat} (hsize : 32 + roundUp min ≤ pool_size)
    (hword : pool_size < 2 ^ 32) (hfit : start + pool_size ≤ 2 ^ 32)
    (h : Reach (Created pool start pool_size min) (step pool) (Sound pool) w) {size : Nat}
    (hs : size ≤ 0xFFFFFFFC) :
    Served pool w size ↔ (adjust (w.heap.pcb pool).dm_min_allocation size = 0 →
      w.heap.dm_memory_free (w.heap.pcb pool).dm_search_ptr ≠ 0) := by
  obtain ⟨bs, hi⟩ := exists_inv hsize hword hfit h
  exact ⟨hi.layout.free_of_served hs, hi.layout.served hs⟩

/-- The first allocation from the system pool of `OS_DMemInit`. -/
theorem served_iff_system : Served 1 (newPool 20480 16) 100 :=
  (served_iff (by decide) (by decide) (by decide) (.start newPool_created) (by decide)).mpr
    fun h0 => absurd h0 (by decide)

/-- **The trailer taken.**  The second request of no bytes in a pool of 32 bytes is met although
there is no free block. -/
theorem trailer_taken : ¬ ∀ w, Reach (Created 1 4096 32 0) (step 1) SizesFit w → Served 1 w 0 := by
  intro hall
  obtain ⟨w, hrun, hused, h0⟩ : ∃ w, run (step 1) (newPool 32 0) [.getMem 0] = some w ∧
      w.heap.dm_memory_free (w.heap.pcb 1).dm_search_ptr = 0 ∧
      adjust (w.heap.pcb 1).dm_min_allocation 0 = 0 := ⟨_, rfl, rfl, rfl⟩
  have hsound : Along (step 1) (Sound 1) (newPool 32 0) [.getMem 0] :=
    ⟨⟨by decide, fun _ => by decide, fun hge => absurd hge (by decide)⟩, fun _ _ => trivial⟩
  have hsizes : Along (step 1) SizesFit (newPool 32 0) [.getMem 0] :=
    ⟨Nat.zero_le _, fun _ _ => trivial⟩
  obtain ⟨bs, hi⟩ := exists_inv (by decide) (by decide) (by decide)
    (reach_run _ (.start newPool_created) hsound hrun)
  have hserved := hall w (reach_run _ (.start newPool_created) hsizes hrun)
  exact hi.layout.free_of_served (by decide) hserved h0 hused

end Nl6621.Dmem
