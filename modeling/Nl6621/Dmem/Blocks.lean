import Nl6621.Dmem.Pool
import Nl6621.Lib.Ring
import Nl6621.Lib.Tiling

/-!
# The blocks in memory

`Rep h pool s e bs` says that the headers in memory spell out the list of blocks `bs`
between the start `s` of a pool and its trailer at `e`.  Since the blocks tile the
range, the links of a block are fixed by its address and its size, and what the list
says is a condition on each block alone (`Header`).  The writes of the code stay inside
one block and the `dm_previous_memory` field behind it, so that the blocks before and
behind are framed by two lemmas.  With them each change of the list is one lemma:
`Rep.mark`, `Rep.split` and `Rep.join`.

The second half is the search of `OS_GetMem`: the headers form a ring, and from any of
its elements the loop finds the first block that is large enough, or returns to where it
began.
-/

namespace Nl6621.Dmem

open Lib

variable {h h' : Heap} {pool s e a m : Nat} {b c : Piece} {bs l r : List Piece}

/-- The header of the block `b`, and the link back to it. -/
structure Header (h : Heap) (pool : Nat) (b : Piece) : Prop where
  next : h.dm_next_memory b.addr = b.addr + 16 + b.size
  previous : h.dm_previous_memory (b.addr + 16 + b.size) = b.addr
  free : h.dm_memory_free b.addr = b.free.toNat
  pool : h.dm_memory_pool b.addr = pool

structure Rep (h : Heap) (pool s e : Nat) (bs : List Piece) : Prop where
  tiles : Tiles 16 s bs e
  headers : ∀ b ∈ bs, Header h pool b
  next_trailer : h.dm_next_memory e = s
  previous_first : h.dm_previous_memory s = e
  free_trailer : h.dm_memory_free e = 0

/-! ### Frames -/

theorem Header.frame (hb : Header h pool b)
    (hm : ∀ x, x = b.addr ∨ x = b.addr + 8 ∨ x = b.addr + 12 ∨ x = b.addr + 16 + b.size + 4 →
      h'.mem x = h.mem x) : Header h' pool b :=
  ⟨(hm _ (.inl rfl)).trans hb.next, (hm _ (.inr (.inr (.inr rfl)))).trans hb.previous,
    (hm _ (.inr (.inl rfl))).trans hb.free, (hm _ (.inr (.inr (.inl rfl)))).trans hb.pool⟩

theorem Rep.of_mem (hr : Rep h pool s e bs) (hm : h'.mem = h.mem) : Rep h' pool s e bs := by
  have hx : ∀ x, h'.mem x = h.mem x := fun x => by rw [hm]
  exact ⟨hr.tiles, fun b hb => (hr.headers b hb).frame fun x _ => hx x,
    (hx _).trans hr.next_trailer, (hx _).trans hr.previous_first, (hx _).trans hr.free_trailer⟩

/-- The blocks that end at `a` see nothing of what is at `a` but the link back. -/
theorem headers_left (ht : Tiles 16 s l a) (hh : ∀ b ∈ l, Header h pool b)
    (hm : ∀ x, x < a ∨ x = a + 4 → h'.mem x = h.mem x) : ∀ b ∈ l, Header h' pool b := by
  intro b hb
  have h1 := (ht.inside hb).2
  have h2 := ht.stop_or hb
  refine (hh b hb).frame fun x hx => hm x ?_
  omega

/-- The blocks that start at `m` see nothing of the link back at `m`. -/
theorem headers_right (ht : Tiles 16 m r e) (hh : ∀ b ∈ r, Header h pool b)
    (hm : ∀ x, x = m ∨ m + 8 ≤ x → h'.mem x = h.mem x) : ∀ b ∈ r, Header h' pool b := by
  intro b hb
  have h1 := ht.addr_or hb
  refine (hh b hb).frame fun x hx => hm x ?_
  omega

theorem forall_mid {P : Piece → Prop} :
    (∀ x ∈ l ++ b :: r, P x) ↔ (∀ x ∈ l, P x) ∧ P b ∧ ∀ x ∈ r, P x := by
  simp only [List.forall_mem_append, List.forall_mem_cons]

/-- **A change inside a range of blocks.**  If the writes stay between the first header of
the range and the link back behind it, only the new blocks in its place are left to
check. -/
theorem Rep.replace {z : Nat} {os : List Piece} (hr : Rep h pool s e (l ++ os ++ r))
    (htl : Tiles 16 s l a) (htr : Tiles 16 z r e) (haz : a + 16 ≤ z) (h' : Heap) (ns : List Piece)
    (hm : ∀ x, x < a ∨ x = a + 4 ∨ x = z ∨ z + 8 ≤ x → h'.mem x = h.mem x)
    (ht : Tiles 16 a ns z) (hh : ∀ c ∈ ns, Header h' pool c) :
    Rep h' pool s e (l ++ ns ++ r) := by
  have hold := hr.headers
  simp only [List.forall_mem_append] at hold
  have hs := htl.eq_or_le
  have he := htr.eq_or_le
  refine ⟨?_, ?_, ?_, ?_, ?_⟩
  · exact Tiles.append.mpr ⟨z, Tiles.append.mpr ⟨a, htl, ht⟩, htr⟩
  · simp only [List.forall_mem_append]
    refine ⟨⟨headers_left htl hold.1.1 fun x hx => hm x (by omega), hh⟩, ?_⟩
    exact headers_right htr hold.2 fun x hx => hm x (by omega)
  · exact (hm e (by omega)).trans hr.next_trailer
  · exact (hm (s + 4) (by omega)).trans hr.previous_first
  · exact (hm (e + 8) (by omega)).trans hr.free_trailer

/-! ### The changes of the list -/

/-- Set the flag of a block. -/
theorem Rep.mark (hr : Rep h pool s e (l ++ b :: r)) (f : Bool) :
    Rep (h.setFree b.addr f.toNat) pool s e (l ++ { b with free := f } :: r) := by
  obtain ⟨-, hb, -⟩ := forall_mid.mp hr.headers
  have hm : ∀ x, x ≠ b.addr + 8 → (h.setFree b.addr f.toNat).mem x = h.mem x :=
    fun x hx => Function.update_of_ne hx _ _
  have hnew : Header (h.setFree b.addr f.toNat) pool { b with free := f } :=
    ⟨(hm _ (by simp)).trans hb.next, (hm _ (by simp; omega)).trans hb.previous,
      Function.update_self _ _ _, (hm _ (by simp)).trans hb.pool⟩
  obtain ⟨htl, htr⟩ := hr.tiles.around
  rw [List.append_cons] at hr ⊢
  exact hr.replace htl htr (by omega) _ _ (fun x hx => hm x (by omega)) ⟨rfl, rfl⟩
    (by simpa using hnew)

theorem splitBlock_mem (pool : Nat) {p q n size : Nat} (hp : h.mem p = n)
    (hq : u32 (p + size + DM_OVERHEAD) = q) (hlt : p + 16 ≤ q) (x : Nat) :
    (splitBlock h pool p size).mem x =
      if x = p then q else if x = n + 4 then q else if x = q then n
      else if x = q + 4 then p else if x = q + 12 then pool else if x = q + 8 then 1
      else h.mem x := by
  have hp4 : p ≠ q + 4 := by omega
  have hp8 : p ≠ q + 8 := by omega
  have hp12 : p ≠ q + 12 := by omega
  simp only [splitBlock, Heap.setPcb, Heap.setNext, Heap.setPrevious, Heap.setFree, Heap.setPool,
    Heap.store, Heap.dm_next_memory, hq, Function.update_apply, if_neg hp4, if_neg hp8, if_neg hp12,
    hp, if_true]

/-- Split a block.  The two parts keep its range. -/
theorem Rep.split (hr : Rep h pool s e (l ++ b :: r)) {n : Nat} (hn : n + 16 ≤ b.size)
    (he : e < 2 ^ 32) :
    Rep (splitBlock h pool b.addr n) pool s e
      (l ++ ⟨b.addr, n, b.free⟩ :: ⟨b.addr + 16 + n, b.size - n - 16, true⟩ :: r) := by
  obtain ⟨-, hb, -⟩ := forall_mid.mp hr.headers
  have hin := (hr.tiles.inside (b := b) (by simp)).2
  have hq : u32 (b.addr + n + DM_OVERHEAD) = b.addr + 16 + n := by
    rw [DM_OVERHEAD, u32_of_lt (by omega)]
    omega
  have hend : b.addr + 16 + n + 16 + (b.size - n - 16) = b.addr + 16 + b.size := by omega
  have hmem := splitBlock_mem pool hb.next hq (by omega)
  have hkeep : ∀ x, x ≠ b.addr → x ≠ b.addr + 16 + b.size + 4 →
      x < b.addr + 16 + n ∨ b.addr + 16 + n + 16 ≤ x →
      (splitBlock h pool b.addr n).mem x = h.mem x := by
    intro x h1 h2 h3
    rw [hmem, if_neg h1, if_neg h2, if_neg (by omega), if_neg (by omega), if_neg (by omega),
      if_neg (by omega)]
  have hfirst : Header (splitBlock h pool b.addr n) pool ⟨b.addr, n, b.free⟩ := by
    refine ⟨(hmem _).trans (if_pos rfl), ?_, (hkeep _ (by simp) (by simp; omega) ?_).trans hb.free,
      (hkeep _ (by simp) (by simp; omega) ?_).trans hb.pool⟩
    · refine (hmem _).trans ?_
      rw [if_neg (by simp; omega), if_neg (by simp; omega), if_neg (by simp), if_pos rfl]
    · exact .inl (by simp; omega)
    · exact .inl (by simp; omega)
  have hsecond : Header (splitBlock h pool b.addr n) pool
      ⟨b.addr + 16 + n, b.size - n - 16, true⟩ := by
    refine ⟨?_, ?_, ?_, ?_⟩
    · refine (hmem _).trans ?_
      rw [if_neg (by simp; omega), if_neg (by simp; omega), if_pos rfl]
      exact hend.symm
    · refine (hmem _).trans ?_
      rw [hend, if_neg (by omega), if_pos rfl]
    · refine (hmem _).trans ?_
      rw [if_neg (by simp; omega), if_neg (by simp; omega), if_neg (by simp), if_neg (by simp),
        if_neg (by simp), if_pos rfl]
      rfl
    · refine (hmem _).trans ?_
      rw [if_neg (by simp; omega), if_neg (by simp; omega), if_neg (by simp), if_neg (by simp),
        if_pos rfl]
  obtain ⟨htl, htr⟩ := hr.tiles.around
  rw [List.append_cons] at hr
  have hrep := hr.replace htl htr (by omega) (splitBlock h pool b.addr n)
    [⟨b.addr, n, b.free⟩, ⟨b.addr + 16 + n, b.size - n - 16, true⟩]
    (fun x hx => hkeep x (by omega) (by omega) (by omega)) ⟨rfl, rfl, hend⟩
    (by simpa using ⟨hfirst, hsecond⟩)
  simpa using hrep

/-- Join a block with the one behind it.  The link of the first and the link back behind
the second are all that is written. -/
theorem Rep.join (hr : Rep h pool s e (l ++ b :: c :: r)) {h' : Heap}
    (hm : ∀ x, h'.mem x = if x = b.addr then c.addr + 16 + c.size
      else if x = c.addr + 16 + c.size + 4 then b.addr else h.mem x) :
    Rep h' pool s e (l ++ ⟨b.addr, b.size + 16 + c.size, b.free⟩ :: r) := by
  obtain ⟨htl, hc, htr⟩ := hr.tiles.around
  rw [← hc] at htr
  obtain ⟨-, hb, -⟩ := forall_mid.mp hr.headers
  have hend : b.addr + 16 + (b.size + 16 + c.size) = c.addr + 16 + c.size := by omega
  have hkeep : ∀ x, x ≠ b.addr → x ≠ c.addr + 16 + c.size + 4 → h'.mem x = h.mem x :=
    fun x h1 h2 => by rw [hm, if_neg h1, if_neg h2]
  have hnew : Header h' pool ⟨b.addr, b.size + 16 + c.size, b.free⟩ := by
    refine ⟨?_, ?_, (hkeep _ (by simp) (by simp; omega)).trans hb.free,
      (hkeep _ (by simp) (by simp; omega)).trans hb.pool⟩
    · rw [hend]
      exact (hm _).trans (if_pos rfl)
    · rw [hend]
      refine (hm _).trans ?_
      rw [if_neg (by omega), if_pos rfl]
  have hr' : Rep h pool s e (l ++ [b, c] ++ r) := by simpa using hr
  have hrep := hr'.replace htl htr (by omega) h' [⟨b.addr, b.size + 16 + c.size, b.free⟩]
    (fun x hx => hkeep x (by omega) (by omega)) ⟨rfl, hend⟩ (by simpa using hnew)
  simpa using hrep

/-! ### The ring of the headers -/

/-- The headers of the pool: those of the blocks and the trailer. -/
def nodes (bs : List Piece) (e : Nat) : List Nat := bs.map Piece.addr ++ [e]

theorem mem_nodes {x : Nat} : x ∈ nodes bs e ↔ (∃ b ∈ bs, b.addr = x) ∨ x = e := by
  simp [nodes]

theorem head_nodes (ht : Tiles 16 s bs e) : (nodes bs e).head? = some s := by
  cases bs with
  | nil => exact congrArg some ht.symm
  | cons b bs => exact congrArg some ht.1

theorem isChain_nodes (ht : Tiles 16 s bs e) (hh : ∀ b ∈ bs, Header h pool b) :
    (nodes bs e).IsChain fun x y => h.dm_next_memory x = y := by
  induction bs generalizing s with
  | nil => exact List.isChain_singleton _
  | cons b bs ih =>
    have hb := hh b List.mem_cons_self
    refine List.isChain_cons.mpr ⟨fun y hy => ?_, ih ht.2 fun c hc => hh c (.tail _ hc)⟩
    have hhead := head_nodes ht.2
    change y ∈ (nodes bs e).head? at hy
    rw [hhead, Option.mem_some_iff] at hy
    rw [hb.next, ht.1]
    exact hy

/-- The walk from the trailer visits every block. -/
theorem Rep.ring (hr : Rep h pool s e bs) : Ring h.dm_next_memory e (bs.map Piece.addr) := by
  refine List.isChain_cons.mpr ⟨fun y hy => ?_, isChain_nodes hr.tiles hr.headers⟩
  have hhead := head_nodes hr.tiles
  change y ∈ (nodes bs e).head? at hy
  rw [hhead, Option.mem_some_iff] at hy
  rw [hr.next_trailer]
  exact hy

/-! ### The search -/

theorem freeSize_block (hb : Header h pool b) (hlt : b.addr + 16 + b.size < 2 ^ 32) :
    freeSize h b.addr = if b.free then b.size else 0 := by
  rw [freeSize, hb.free, hb.next]
  cases b.free with
  | false => simp
  | true =>
    rw [sub32_of_le hlt (by omega), DM_OVERHEAD, sub32_of_le (by omega) (by omega)]
    simp
    omega

variable {p sp : Nat} {xs : List Nat}

/-- **The search loop** on the rest `p :: xs` of the ring ends at the first element with
enough free bytes, or back at the search pointer if there is none. -/
theorem searchLoop_spec (size : Nat) {k : Nat} (hk : xs.length < k) (hs : sp ∉ xs)
    (hc : (p :: (xs ++ [sp])).IsChain fun x y => h.dm_next_memory x = y) :
    (∃ x ∈ p :: xs, size ≤ freeSize h x ∧
      searchLoop h sp size k p = some (x, freeSize h x)) ∨
    ((∀ x ∈ p :: xs, freeSize h x < size) ∧
      ∃ n, n < size ∧ searchLoop h sp size k p = some (sp, n)) := by
  induction xs generalizing p k with
  | nil =>
    obtain ⟨k, rfl⟩ : ∃ j, k = j + 1 := ⟨k - 1, by simp at hk; omega⟩
    have hnext : h.dm_next_memory p = sp := (List.isChain_cons_cons.mp hc).1
    rw [searchLoop]
    by_cases hp : freeSize h p < size
    · rw [if_pos hp, hnext, if_neg (by simp)]
      exact .inr ⟨by simpa using hp, _, hp, rfl⟩
    · rw [if_neg hp]
      exact .inl ⟨p, by simp, by omega, rfl⟩
  | cons x xs ih =>
    obtain ⟨k, rfl⟩ : ∃ j, k = j + 1 := ⟨k - 1, by simp at hk; omega⟩
    obtain ⟨hnext, hc'⟩ := List.isChain_cons_cons.mp hc
    have hne : x ≠ sp := fun hx => hs (hx ▸ List.mem_cons_self)
    rw [searchLoop]
    by_cases hp : freeSize h p < size
    · rw [if_pos hp, hnext, if_pos hne]
      have hlen : xs.length < k := by simp at hk; omega
      rcases ih hlen (fun hx => hs (.tail _ hx)) hc' with ⟨y, hy, hle, heq⟩ | ⟨hall, n, hn, heq⟩
      · exact .inl ⟨y, .tail _ hy, hle, heq⟩
      · refine .inr ⟨fun y hy => ?_, n, hn, heq⟩
        rcases List.mem_cons.mp hy with rfl | hy
        · exact hp
        · exact hall y hy
    · rw [if_neg hp]
      exact .inl ⟨p, List.mem_cons_self, by omega, rfl⟩

/-- The search of a pool, from any of its headers. -/
theorem Rep.search (hr : Rep h pool s e bs) (hs : sp ∈ nodes bs e) (size : Nat) {k : Nat}
    (hk : bs.length < k) :
    (∃ x ∈ nodes bs e, size ≤ freeSize h x ∧
      searchLoop h sp size k sp = some (x, freeSize h x)) ∨
    ((∀ x ∈ nodes bs e, freeSize h x < size) ∧
      ∃ n, n < size ∧ searchLoop h sp size k sp = some (sp, n)) := by
  have hperm : (e :: bs.map Piece.addr).Perm (nodes bs e) := 
    (List.perm_append_singleton e _).symm
  obtain ⟨ys, hring, hys⟩ := hr.ring.from_mem (hperm.mem_iff.mpr hs)
  have hall : ∀ x, x ∈ sp :: ys ↔ x ∈ nodes bs e := fun x => (hys.trans hperm).mem_iff
  have hnodup : (sp :: ys).Nodup := by
    have hasc := hr.tiles.ascending (by omega)
    exact (hys.trans hperm).nodup_iff.mpr (hasc.imp fun hxy => Nat.ne_of_lt hxy)
  have hlen : ys.length < k := by
    have := hys.length_eq
    simp at this
    omega
  have hspec := searchLoop_spec size hlen (List.nodup_cons.mp hnodup).1 hring
  simpa only [hall] using hspec

end Nl6621.Dmem
