import Nl6621.Dmem.Invariant

/-!
# The pool when everything is given back

No two neighbours are free and every block in use is live, so a pool without live blocks is
one free block, whatever was allocated and in whatever order it was freed.  Its control block
and its two headers are then those of the new pool, with the exception of the search pointer
(`full_coalescing`).  The requests that break the representation of the pool break this too:
`trailer_merged` is a run of four calls after which the trailer is a free block.
-/

namespace Nl6621.Dmem

open Lib

variable {h h' : Heap} {pool n : Nat} {b : Piece} {bs l r : List Piece} {w w' w₀ : World}

/-! ### What no step touches -/

/-- The constant fields of the control block and what lies behind the links of the trailer are
kept. -/
def Kept (pool : Nat) (w w' : World) : Prop :=
  (w.heap.pcb pool).Same (w'.heap.pcb pool) ∧
    ∀ x, (w.heap.pcb pool).trailer + 4 < x → w'.heap.mem x = w.heap.mem x

theorem Kept.refl (w : World) : Kept pool w w := ⟨.refl _, fun _ _ => rfl⟩

theorem Kept.trans {w'' : World} (h : Kept pool w w') (h' : Kept pool w' w'') :
    Kept pool w w'' := by
  refine ⟨h.1.trans h'.1, fun x hx => ?_⟩
  rw [h'.2 x (by rw [h.1.trailer]; exact hx), h.2 x hx]

theorem takeBlock_mem (h : Heap) (pool p size free_size : Nat) :
    (takeBlock h pool p size free_size).mem =
      ((if u32 (size + DM_OVERHEAD + (h.pcb pool).dm_min_allocation) ≤ free_size then
        splitBlock h pool p size
      else h.setPcb pool fun p =>
        { p with dm_available := sub32 p.dm_available free_size }).setFree p 0).mem := by
  rw [takeBlock]
  generalize (if u32 (size + DM_OVERHEAD + (h.pcb pool).dm_min_allocation) ≤ free_size then
    splitBlock h pool p size
    else h.setPcb pool fun p => { p with dm_available := sub32 p.dm_available free_size }) = h₁
  split <;> rfl

/-- `OS_GetMem` writes into the block it has found and into the link back to it. -/
theorem Layout.takeBlock_above (hl : Layout h pool (l ++ b :: r))
    (hsum : n + 16 + (h.pcb pool).dm_min_allocation < 2 ^ 32) {x : Nat}
    (hx : (h.pcb pool).trailer + 4 < x) :
    (takeBlock h pool b.addr n b.size).mem x = h.mem x := by
  have hstop := hl.stop_le (b := b) (by simp)
  have hlt := hl.trailer_lt
  have hfree : ∀ h₁ : Heap, (h₁.setFree b.addr 0).mem x = h₁.mem x :=
    fun h₁ => Function.update_of_ne (by omega) _ _
  rw [takeBlock_mem, hfree, DM_OVERHEAD, u32_of_lt hsum]
  split
  · have hq : u32 (b.addr + n + DM_OVERHEAD) = b.addr + 16 + n := by
      rw [DM_OVERHEAD, u32_of_lt (by omega)]
      omega
    rw [splitBlock_mem pool (hl.rep.headers b (by simp)).next hq (by omega), if_neg (by omega),
      if_neg (by omega), if_neg (by omega), if_neg (by omega), if_neg (by omega), if_neg (by omega)]
  · rfl

theorem kept_getMem (hi : Inv pool w bs) {size : Nat} (hok : Sound pool w (.getMem size))
    (hs : step pool w (.getMem size) = some w') : Kept pool w w' := by
  rcases hi.layout.getMem_cases size hok.2.1 with ⟨b, hb, hfree, hle, heq⟩ | ⟨-, heq⟩
  · have hsum := hi.layout.sum_lt hok hb hfree hle
    rw [step, heq] at hs
    obtain rfl := Option.some.inj hs
    obtain ⟨l, r, rfl⟩ := List.append_of_mem hb
    exact ⟨takeBlock_same _ _ _ _ _ _, fun x hx => hi.layout.takeBlock_above hsum hx⟩
  · rw [step, heq] at hs
    obtain rfl := Option.some.inj hs
    exact .refl w

/-- The heap after `OS_FreeMem` keeps what no step touches. -/
theorem Layout.freed (hl : Layout h pool (l ++ b :: r)) (hs : Separate (l ++ b :: r))
    (hb : b.free = false) :
    ∃ h', (osFreeMem h (b.addr + 16)).1 = h' ∧ (h.pcb pool).Same (h'.pcb pool) ∧
      ∀ x, (h.pcb pool).trailer + 4 < x → h'.mem x = h.mem x := by
  obtain ⟨-, -, -, -, hsame, hmem⟩ := hl.release hs hb
  exact ⟨_, rfl, hsame, hmem⟩

theorem kept_freeMem (hi : Inv pool w bs) {memory : Nat}
    (hs : step pool w (.freeMem memory) = some w') : Kept pool w w' := by
  rw [step] at hs
  split at hs
  · rename_i hm
    obtain rfl := Option.some.inj hs
    obtain ⟨x, hx, rfl⟩ := List.mem_map.mp hm
    obtain ⟨l, b, r, rfl, hf, h1, -⟩ := hi.block_of_live hx
    rw [h1]
    obtain ⟨h', heq, hsame, hmem⟩ := hi.layout.freed hi.separate hf
    rw [heq]
    exact ⟨hsame, hmem⟩
  · cases hs

theorem kept_use (hi : Inv pool w bs) {a v : Nat} (hs : step pool w (.use a v) = some w') :
    Kept pool w w' := by
  rw [step] at hs
  split at hs
  · rename_i hx
    cases hs
    obtain ⟨x, hx, h1, h2⟩ := hx
    obtain ⟨l, b, r, rfl, -, h3, h4⟩ := hi.block_of_live hx
    have hstop := hi.layout.stop_le (b := b) (by simp)
    exact ⟨.refl _, fun y hy => Function.update_of_ne (by omega) _ _⟩
  · cases hs

theorem kept_step (hi : Inv pool w bs) {a : Act} (hok : Sound pool w a)
    (hs : step pool w a = some w') : Kept pool w w' := by
  cases a with
  | getMem size => exact kept_getMem hi hok hs
  | freeMem memory => exact kept_freeMem hi hs
  | use a v => exact kept_use hi hs

/-! ### No live block -/

/-- Without live blocks the pool is one free block. -/
theorem Inv.single (hi : Inv pool w bs) (hlive : w.live = []) :
    bs = [⟨(w.heap.pcb pool).dm_start_address, (w.heap.pcb pool).dm_pool_size - 32, true⟩] := by
  have hused : used bs = [] := by
    rw [List.eq_nil_iff_forall_not_mem]
    intro b hb
    have hmem := hi.live.all b hb
    rw [hlive] at hmem
    cases hmem
  have hstart := hi.layout.start_le
  have htiles := hi.layout.rep.tiles
  rcases single_of_separate hi.separate hused with rfl | ⟨b, rfl, hf⟩
  · have heq : (w.heap.pcb pool).dm_start_address = (w.heap.pcb pool).trailer := htiles
    omega
  · obtain ⟨haddr, hend⟩ := htiles
    obtain ⟨addr, size, free⟩ := b
    have hend : (w.heap.pcb pool).dm_start_address + 16 + size = (w.heap.pcb pool).trailer := hend
    have hroom := hi.layout.room
    rw [DmPcb.trailer] at hend
    simp only at haddr hf
    rw [haddr, hf]
    congr 2
    omega

/-- The headers at `p` agree. -/
def SameHeader (h h' : Heap) (p : Nat) : Prop :=
  h'.dm_next_memory p = h.dm_next_memory p ∧ h'.dm_previous_memory p = h.dm_previous_memory p ∧
    h'.dm_memory_free p = h.dm_memory_free p ∧ h'.dm_memory_pool p = h.dm_memory_pool p

/-- Two pools of one block in the same place have the same headers, up to the pool the trailer
names. -/
theorem Rep.sameHeader {s e size : Nat} (hr : Rep h pool s e [⟨s, size, true⟩])
    (hr' : Rep h' pool s e [⟨s, size, true⟩])
    (hp : h'.dm_memory_pool e = h.dm_memory_pool e) : SameHeader h h' s ∧ SameHeader h h' e := by
  have hb := hr.headers _ (List.mem_singleton_self _)
  have hb' := hr'.headers _ (List.mem_singleton_self _)
  have hend : s + 16 + size = e := hr.tiles.2
  have hprev := hb.previous
  have hprev' := hb'.previous
  simp only [hend] at hprev hprev'
  exact ⟨⟨hb'.next.trans hb.next.symm, hr'.previous_first.trans hr.previous_first.symm,
      hb'.free.trans hb.free.symm, hb'.pool.trans hb.pool.symm⟩,
    hr'.next_trailer.trans hr.next_trailer.symm, hprev'.trans hprev.symm,
    hr'.free_trailer.trans hr.free_trailer.symm, hp⟩

/-- **Everything that was allocated and freed again leaves no trace.**  In a run all of whose
requests are sound, whenever no block is live the pool is the new one up to the search pointer:
one free block and the trailer, with the same headers and the same free bytes. -/
theorem full_coalescing {start size min : Nat} (hsize : 32 + roundUp min ≤ size)
    (hword : size < 2 ^ 32) (hfit : start + size ≤ 2 ^ 32) (hw₀ : Created pool start size min w₀)
    (h : Reach (· = w₀) (step pool) (Sound pool) w) (hlive : w.live = []) :
    Consistent pool w [⟨start, size / 4 * 4 - 32, true⟩] ∧
    (∃ p, w.heap.pcb pool = { w₀.heap.pcb pool with dm_search_ptr := p } ∧
      (p = start ∨ p = start + size / 4 * 4 - 16)) ∧
    SameHeader w₀.heap w.heap start ∧ SameHeader w₀.heap w.heap (start + size / 4 * 4 - 16) := by
  obtain ⟨bs₀, hi₀⟩ := inv_created hsize hword hfit hw₀
  have hlive₀ : w₀.live = [] := by
    obtain ⟨_, rfl⟩ := hw₀
    rfl
  have hpcb₀ : (w₀.heap.pcb pool).dm_start_address = start ∧
      (w₀.heap.pcb pool).dm_pool_size = size / 4 * 4 := by
    obtain ⟨_, rfl⟩ := hw₀
    rw [osCreateMemoryPool_pcb]
    exact ⟨rfl, rfl⟩
  obtain ⟨⟨bs, hi⟩, hk⟩ := h.invariant (I := fun w => (∃ bs, Inv pool w bs) ∧ Kept pool w₀ w)
    (by rintro _ rfl; exact ⟨⟨bs₀, hi₀⟩, .refl _⟩)
    (fun _ _ _ hi hok hs => hi.1.elim fun _ hinv =>
      ⟨inv_step hinv hok hs, hi.2.trans (kept_step hinv hok hs)⟩)
  have hsame := hk.1
  have htr := hsame.trailer
  have hstart : (w.heap.pcb pool).dm_start_address = (w₀.heap.pcb pool).dm_start_address := by
    rw [hsame]
  have hpool : (w.heap.pcb pool).dm_pool_size = (w₀.heap.pcb pool).dm_pool_size := by rw [hsame]
  have hbs := hi.single hlive
  have hbs₀ := hi₀.single hlive₀
  rw [hstart, hpool] at hbs
  subst hbs hbs₀
  have hrep := hi.layout.rep
  rw [hstart, htr] at hrep
  have hcons := hi.consistent
  have hsearch := hi.layout.search
  have havail := hi.layout.available.trans hi₀.layout.available.symm
  obtain ⟨hh1, hh2⟩ := hi₀.layout.rep.sameHeader hrep (hk.2 _ (by omega))
  rw [htr] at hsearch
  simp only [DmPcb.trailer, hpcb₀] at hcons hsearch hh1 hh2
  refine ⟨hcons, ⟨(w.heap.pcb pool).dm_search_ptr, ?_, ?_⟩, hh1, hh2⟩
  · simp only
    rw [← havail]
    exact hsame
  · simpa [nodes] using hsearch

/-- A block of four bytes of a small pool, allocated and freed. -/
def smallRun : List Act := [.getMem 4, .freeMem 4112]

theorem full_coalescing_small :
    ∃ w, run (step 1) (newPool 64 4) smallRun = some w ∧ Consistent 1 w [⟨4096, 32, true⟩] := by
  have hok : Along (step 1) (Sound 1) (newPool 64 4) smallRun :=
    ⟨⟨by decide, fun h0 => absurd h0 (by decide), fun hge => absurd hge (by decide)⟩,
      fun _ _ => ⟨trivial, fun _ _ => trivial⟩⟩
  obtain ⟨w, hrun, hlive⟩ : ∃ w, run (step 1) (newPool 64 4) smallRun = some w ∧ w.live = [] :=
    ⟨_, rfl, rfl⟩
  have h : Reach (· = newPool 64 4) (step 1) (Sound 1) w :=
    reach_run smallRun (.start rfl) hok hrun
  exact ⟨w, hrun,
    (full_coalescing (by decide) (by decide) (by decide) newPool_created h hlive).1⟩

/-- Two requests of no bytes in a pool of 32 bytes, and the release of both blocks. -/
def emptyRun : List Act := [.getMem 0, .getMem 0, .freeMem 4128, .freeMem 4112]

/-- **The trailer merged away.**  The trailer is handed out, since it counts as a block with no
free bytes; when all is freed again it is a free block, and merged with the first. -/
theorem trailer_merged : ¬ ∀ w, Reach (· = newPool 32 0) (step 1) SizesFit w → w.live = [] →
    SameHeader (newPool 32 0).heap w.heap 4112 := by
  intro hall
  obtain ⟨w, hrun, hlive, hfree⟩ : ∃ w, run (step 1) (newPool 32 0) emptyRun = some w ∧
      w.live = [] ∧ w.heap.dm_memory_free 4112 ≠ (newPool 32 0).heap.dm_memory_free 4112 :=
    ⟨_, rfl, rfl, by decide⟩
  have hsizes : Along (step 1) SizesFit (newPool 32 0) emptyRun :=
    ⟨Nat.zero_le _, fun _ _ => ⟨Nat.zero_le _, fun _ _ =>
      ⟨trivial, fun _ _ => ⟨trivial, fun _ _ => trivial⟩⟩⟩⟩
  exact hfree (hall w (reach_run emptyRun (.start rfl) hsizes hrun) hlive).2.2.1

end Nl6621.Dmem
