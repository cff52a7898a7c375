import Nl6621.Util.CellQueue

/-!
# What the queue operations do to the lists

One theorem for each operation: where the lists are represented, the operation follows no null
pointer, and the lists are represented again, edited as the operation's name says.  The ring of
the queue is turned until the place of the edit is at its end, and there the cell is spliced in
or cut out.  `change` and `merge` take care of the other queues.
-/

namespace Nl6621.Util

open Lib Function

variable {heads : List Addr} {m m' : Mem} {Q : Addr → List Addr} {h i n x : Addr} {ys : List Addr}

theorem toNat_count_succ {c : UInt16} {k : Nat} (hc : c.toNat = k) (hk : k + 1 < 2 ^ 16) :
    (c + 1).toNat = k + 1 := by
  rw [UInt16.toNat_add, hc]
  exact Nat.mod_eq_of_lt hk

namespace Represents

theorem enqueueTail (R : Represents heads m Q) (hh : h ∈ heads) (hn : Free heads Q n)
    (hlt : (Q h).length + 1 < 2 ^ 16) :
    ∃ m', utilEnqueueListTail h n m = .ok m' ∧ Represents heads m' (update Q h (Q h ++ [n])) := by
  have hlast := R.pprev_mem hh
  have hnh : n ≠ h := fun he => hn.2 h hh (he ▸ List.mem_cons_self)
  have hnl : n ≠ m.pprev h := fun he => hn.2 h hh (he ▸ hlast)
  have hnd : (h :: (Q h ++ [n])).Nodup := by
    rw [← List.cons_append, List.nodup_append]
    refine ⟨R.nodup h hh, List.nodup_singleton n, fun a ha b hb => ?_⟩
    rw [List.mem_singleton.mp hb]
    rintro rfl
    exact hn.2 h hh ha
  refine ⟨_, utilEnqueueListTail_eq (R.ne_null hh List.mem_cons_self) hn.1 (R.ne_null hh hlast), ?_⟩
  refine R.change hh ?_ hnd ?_ ?_ ?_
  · rw [← List.cons_append] at hnd ⊢
    refine (R.circular h hh).splice (List.isChain_singleton n) (List.cons_ne_nil _ _)
      (List.cons_ne_nil _ _) hnd ?_ ?_ ?_ ?_
    · rw [← R.pprev_head hh]
      exact ⟨update_self .., by simp [Mem.links, hnh]⟩
    · exact ⟨by simp [Mem.links, hnl], update_self ..⟩
    · intro x _ hxl (hxn : x ≠ n)
      rw [← R.pprev_head hh] at hxl
      simp only [Mem.links]
      rw [update_of_ne hxl, update_of_ne hxn]
    · intro x _ (hxh : x ≠ h) (hxn : x ≠ n)
      simp only [Mem.links]
      rw [update_of_ne hxh, update_of_ne hxn]
  · intro x hx
    rcases List.mem_append.mp hx with hx | hx
    · exact .inl hx
    · exact .inr (List.mem_singleton.mp hx ▸ hn)
  · rw [List.length_append]
    show (update m.count h (m.count h + 1) h).toNat = (Q h).length + 1
    rw [update_self]
    exact toNat_count_succ (R.count h hh) hlt
  · intro h' hh' hne
    refine ⟨update_of_ne hne .., fun x hx => ?_⟩
    have hxh := R.ne_of_ne hh hh' hne hx List.mem_cons_self
    have hxl := R.ne_of_ne hh hh' hne hx hlast
    have hxn : x ≠ n := fun he => hn.2 h' hh' (he ▸ hx)
    simp only
    rw [update_of_ne hxl, update_of_ne hxn, update_of_ne hxh, update_of_ne hxn]
    exact ⟨rfl, rfl⟩

theorem enqueueHead (R : Represents heads m Q) (hh : h ∈ heads) (hn : Free heads Q n)
    (hlt : (Q h).length + 1 < 2 ^ 16) :
    ∃ m', utilEnqueueListHead h n m = .ok m' ∧ Represents heads m' (update Q h (n :: Q h)) := by
  have hfirst := R.pnext_mem hh
  have hnh : n ≠ h := fun he => hn.2 h hh (he ▸ List.mem_cons_self)
  have hnf : n ≠ m.pnext h := fun he => hn.2 h hh (he ▸ hfirst)
  have hnq : n ∉ Q h := fun hx => hn.2 h hh (List.mem_cons_of_mem _ hx)
  have hperm : (Q h ++ [h] ++ [n]).Perm (h :: n :: Q h) := by
    rw [List.append_assoc]
    exact List.perm_append_comm
  have hnd : (h :: n :: Q h).Nodup := by
    refine List.nodup_cons.mpr ⟨fun hx => ?_, List.nodup_cons.mpr ⟨hnq, (R.nodup h hh).of_cons⟩⟩
    rcases List.mem_cons.mp hx with hx | hx
    · exact hnh hx.symm
    · exact (List.nodup_cons.mp (R.nodup h hh)).1 hx
  refine ⟨_, utilEnqueueListHead_eq (R.ne_null hh List.mem_cons_self) hn.1 (R.ne_null hh hfirst), ?_⟩
  refine R.change hh ?_ hnd ?_ ?_ ?_
  · have hring : m.links.Circular (Q h ++ [h]) := (Links.Circular.comm _ [h] _).mp (R.circular h hh)
    have hne : Q h ++ [h] ≠ [] := List.append_ne_nil_of_right_ne_nil _ (List.cons_ne_nil _ _)
    show Links.Circular _ ([h] ++ [n] ++ Q h)
    rw [Links.Circular.comm, ← List.append_assoc]
    refine hring.splice (List.isChain_singleton n) hne (List.cons_ne_nil _ _)
      (hperm.nodup_iff.mpr hnd) ?_ ?_ ?_ ?_
    · rw [List.getLast_append_singleton]
      exact ⟨update_self .., by simp [Mem.links, hnf]⟩
    · rw [← R.pnext_head hh]
      exact ⟨by simp [Mem.links, hnh], update_self ..⟩
    · intro x _ hxh (hxn : x ≠ n)
      rw [List.getLast_append_singleton] at hxh
      simp only [Mem.links]
      rw [update_of_ne hxh, update_of_ne hxn]
    · intro x _ hxf (hxn : x ≠ n)
      rw [← R.pnext_head hh] at hxf
      simp only [Mem.links]
      rw [update_of_ne hxf, update_of_ne hxn]
  · intro x hx
    rcases List.mem_cons.mp hx with rfl | hx
    · exact .inr hn
    · exact .inl hx
  · show (update m.count h (m.count h + 1) h).toNat = (Q h).length + 1
    rw [update_self]
    exact toNat_count_succ (R.count h hh) hlt
  · intro h' hh' hne
    refine ⟨update_of_ne hne .., fun x hx => ?_⟩
    have hxh := R.ne_of_ne hh hh' hne hx List.mem_cons_self
    have hxf := R.ne_of_ne hh hh' hne hx hfirst
    have hxn : x ≠ n := fun he => hn.2 h' hh' (he ▸ hx)
    simp only
    rw [update_of_ne hxh, update_of_ne hxn, update_of_ne hxf, update_of_ne hxn]
    exact ⟨rfl, rfl⟩

/-- The ring seen from a node of the list. -/
theorem around (R : Represents heads m Q) (hh : h ∈ heads) {l r : List Addr}
    (hq : Q h = l ++ n :: r) : m.links.Circular (n :: (r ++ h :: l)) := by
  have hring := R.circular h hh
  rw [hq, ← List.cons_append, Links.Circular.comm] at hring
  exact hring

theorem links_mem (R : Represents heads m Q) (hh : h ∈ heads) {l r : List Addr}
    (hq : Q h = l ++ n :: r) : m.pprev n ∈ r ++ h :: l ∧ m.pnext n ∈ r ++ h :: l := by
  have hne : r ++ h :: l ≠ [] := List.append_ne_nil_of_right_ne_nil _ (List.cons_ne_nil _ _)
  have hring := R.around hh hq
  have hp := hring.prev_head
  have hn := hring.next_head
  rw [List.getLast_cons hne] at hp
  rw [List.head_append_of_ne_nil hne] at hn
  refine ⟨?_, ?_⟩
  · show m.links.prev n ∈ _
    rw [hp]
    exact List.getLast_mem hne
  · show m.links.next n ∈ _
    rw [hn]
    exact List.head_mem hne

theorem unlink (R : Represents heads m Q) (hh : h ∈ heads) (hn : n ∈ Q h) :
    ∃ m', utilUnlinkList h n m = .ok m' ∧ Represents heads m' (update Q h ((Q h).erase n)) ∧
      m'.pnext n = NULL ∧ m'.pprev n = NULL := by
  obtain ⟨l, r, hq⟩ := List.append_of_mem hn
  have hne : r ++ h :: l ≠ [] := List.append_ne_nil_of_right_ne_nil _ (List.cons_ne_nil _ _)
  have hring := R.around hh hq
  have hlast := hring.prev_head
  have hfirst := hring.next_head
  rw [List.getLast_cons hne] at hlast
  rw [List.head_append_of_ne_nil hne] at hfirst
  obtain ⟨hpm, hnm⟩ := R.links_mem hh hq
  have hperm : (n :: (r ++ h :: l)).Perm (h :: Q h) := by
    rw [hq]
    have hp : ((n :: r) ++ (h :: l)).Perm ((h :: l) ++ (n :: r)) := List.perm_append_comm
    exact hp
  have hnd := hperm.nodup_iff.mpr (R.nodup h hh)
  obtain ⟨hnotin, hnd'⟩ := List.nodup_cons.mp hnd
  have hmem : ∀ x ∈ r ++ h :: l, x ∈ h :: Q h :=
    fun x hx => hperm.mem_iff.mp (List.mem_cons_of_mem n hx)
  have hnh : h ≠ n := by
    rintro rfl
    exact hnotin (List.mem_append_right _ List.mem_cons_self)
  have herase : (Q h).erase n = l ++ r := by
    have hnl : n ∉ l := fun hx => hnotin (List.mem_append_right _ (List.mem_cons_of_mem _ hx))
    rw [hq, List.erase_append_right _ hnl, List.erase_cons_head]
  rw [herase]
  refine ⟨_, utilUnlinkList_eq (R.ne_null hh List.mem_cons_self)
    (R.ne_null hh (List.mem_cons_of_mem _ hn)) (R.ne_null hh (hmem _ hpm))
    (R.ne_null hh (hmem _ hnm)), ?_, update_self .., update_self ..⟩
  refine R.change hh ?_ ?_ ?_ ?_ ?_
  · show Links.Circular _ ((h :: l) ++ r)
    rw [Links.Circular.comm]
    have hcut : m.links.Circular ((r ++ h :: l) ++ [n]) := (Links.Circular.comm _ [n] _).mp hring
    refine hcut.cut hne hnd' ?_ ?_ ?_
    · rw [← hlast, ← hfirst]
      have hp : m.pprev n ≠ n := fun he => hnotin (he ▸ hpm)
      have hx : m.pnext n ≠ n := fun he => hnotin (he ▸ hnm)
      exact ⟨by simp [Mem.links, hp], by simp [Mem.links, hx]⟩
    · intro x hx hxl
      rw [← hlast] at hxl
      have hxn : x ≠ n := fun he => hnotin (he ▸ hx)
      show update (update m.pnext _ _) n NULL x = m.pnext x
      rw [update_of_ne hxn]
      exact update_of_ne hxl ..
    · intro x hx hxf
      rw [← hfirst] at hxf
      have hxn : x ≠ n := fun he => hnotin (he ▸ hx)
      show update (update m.pprev _ _) n NULL x = m.pprev x
      rw [update_of_ne hxn]
      exact update_of_ne hxf ..
  · have hp : (r ++ (h :: l)).Perm ((h :: l) ++ r) := List.perm_append_comm
    exact hp.nodup_iff.mp hnd'
  · intro x hx
    rw [hq]
    rcases List.mem_append.mp hx with hx | hx
    · exact .inl (List.mem_append_left _ hx)
    · exact .inl (List.mem_append_right _ (List.mem_cons_of_mem _ hx))
  · have hc := R.count h hh
    rw [hq, List.length_append, List.length_cons] at hc
    show (update m.count h (m.count h - 1) h).toNat = (l ++ r).length
    have hone : (1 : UInt16).toNat = 1 := rfl
    have hle : (1 : UInt16) ≤ m.count h := UInt16.le_iff_toNat_le.mpr (by omega)
    rw [update_self, UInt16.toNat_sub_of_le _ _ hle, List.length_append]
    omega
  · intro h' hh' hne'
    refine ⟨update_of_ne hne' .., fun x hx => ?_⟩
    have hxn := R.ne_of_ne hh hh' hne' hx (List.mem_cons_of_mem _ hn)
    have hxl := R.ne_of_ne hh hh' hne' hx (hmem _ hpm)
    have hxf := R.ne_of_ne hh hh' hne' hx (hmem _ hnm)
    simp only
    rw [update_of_ne hxn, update_of_ne hxl, update_of_ne hxn, update_of_ne hxf]
    exact ⟨rfl, rfl⟩

theorem dequeue (R : Represents heads m Q) (hh : h ∈ heads) :
    ∃ m', utilDequeueList h m = .ok (m', (Q h).headD NULL) ∧
      Represents heads m' (update Q h (Q h).tail) := by
  have hnull := R.ne_null hh List.mem_cons_self
  have hfirst := R.pnext_head hh
  have hnext := R.ne_null hh (R.pnext_mem hh)
  cases hq : Q h with
  | nil =>
    have hself : m.pnext h = h := by
      simp only [hq] at hfirst
      exact hfirst
    refine ⟨m, ?_, ?_⟩
    · rw [utilDequeueList, Mem.getNext, if_neg hnull]
      simp only [Outcome.ok_bind]
      rw [if_neg fun hc => hc.2 hself]
      rfl
    · rw [List.tail_nil, ← hq, update_eq_self]
      exact R
  | cons n r =>
    have hn : m.pnext h = n := by
      simp only [hq] at hfirst
      exact hfirst
    have hmem : n ∈ Q h := hq ▸ List.mem_cons_self
    have hnh : n ≠ h := by
      rintro rfl
      exact (List.nodup_cons.mp (R.nodup n hh)).1 hmem
    obtain ⟨m', hm', R', -⟩ := R.unlink hh hmem
    refine ⟨m', ?_, ?_⟩
    · rw [utilDequeueList, Mem.getNext, if_neg hnull]
      simp only [Outcome.ok_bind]
      rw [if_pos ⟨hnext, hn.trans_ne hnh⟩, hn, hm']
      rfl
    · rw [hq, List.erase_cons_head] at R'
      exact R'

theorem removeCell (R : Represents heads m Q) (hh : h ∈ heads) (hn : n ∈ Q h) :
    ∃ m', nstRemoveCell h n m = .ok m' ∧ Represents heads m' (update Q h ((Q h).erase n)) := by
  obtain ⟨l, r, hq⟩ := List.append_of_mem hn
  obtain ⟨hpm, hnm⟩ := R.links_mem hh hq
  have hmem : ∀ x ∈ r ++ h :: l, x ∈ h :: Q h := by
    intro x hx
    have hp : ((n :: r) ++ (h :: l)).Perm ((h :: l) ++ (n :: r)) := List.perm_append_comm
    rw [hq]
    exact hp.mem_iff.mp (List.mem_cons_of_mem n hx)
  obtain ⟨m', hm', R', -⟩ := R.unlink hh hn
  refine ⟨m', ?_, R'⟩
  rw [nstRemoveCell, if_pos ⟨R.ne_null hh (List.mem_cons_of_mem _ hn), R.ne_null hh (hmem _ hnm),
    R.ne_null hh (hmem _ hpm)⟩, hm']

/-- The inserted queue on its own, with its head emptied. -/
theorem reset (R : Represents heads m Q) (hi : i ∈ heads) :
    Represents heads ⟨update m.pprev i i, update m.pnext i i, update m.count i 0⟩
      (update Q i []) := by
  refine R.change hi ?_ (List.nodup_singleton i) (fun x hx => (nomatch hx)) ?_ ?_
  · rw [Links.circular_iff (List.cons_ne_nil _ _)]
    exact ⟨List.isChain_singleton i, update_self .., update_self ..⟩
  · show (update m.count i 0 i).toNat = 0
    rw [update_self]
    rfl
  · intro h' hh' hne
    refine ⟨update_of_ne hne .., fun x hx => ?_⟩
    have hxi := R.ne_of_ne hi hh' hne hx List.mem_cons_self
    exact ⟨update_of_ne hxi .., update_of_ne hxi ..⟩

/-- The list `ys`, made of the nodes of two queues, is now the first queue's, and the
second one is empty. -/
theorem merge (R : Represents heads m Q) (hh : h ∈ heads) (hi : i ∈ heads) (hne : h ≠ i)
    (hperm : ys.Perm (Q h ++ Q i)) (hlt : (Q h).length + (Q i).length < 2 ^ 16)
    (hcirc : m'.links.Circular (h :: ys)) (hpi : m'.pprev i = i) (hni : m'.pnext i = i)
    (hc : m'.count = update (update m.count h (m.count h + m.count i)) i 0)
    (hframe : ∀ x, x ∉ h :: Q h → x ∉ i :: Q i → m'.pnext x = m.pnext x ∧ m'.pprev x = m.pprev x) :
    Represents heads m' (update (update Q h ys) i []) := by
  have R₁ := R.reset hi
  have hnd := R.nodup h hh
  have hndi := R.nodup i hi
  have hdis := R.disjoint h hh i hi hne
  have hq : update Q i [] h = Q h := update_of_ne hne ..
  rw [update_comm hne]
  refine R₁.change hh hcirc ?_ ?_ ?_ ?_
  · have hp : (h :: ys).Perm ((h :: Q h) ++ Q i) := hperm.cons h
    rw [hp.nodup_iff, List.nodup_append]
    refine ⟨hnd, hndi.of_cons, fun a ha b hb => ?_⟩
    rintro rfl
    exact hdis ha (List.mem_cons_of_mem _ hb)
  · intro x hx
    rw [hq]
    rcases List.mem_append.mp (hperm.mem_iff.mp hx) with hx | hx
    · exact .inl hx
    · refine .inr ⟨R.ne_null hi (List.mem_cons_of_mem _ hx), fun h' hh' hx' => ?_⟩
      by_cases hi' : h' = i
      · subst hi'
        rw [update_self] at hx'
        rcases List.mem_cons.mp hx' with rfl | hx'
        · exact (List.nodup_cons.mp hndi).1 hx
        · cases hx'
      · rw [update_of_ne hi'] at hx'
        exact R.disjoint h' hh' i hi hi' hx' (List.mem_cons_of_mem _ hx)
  · rw [hc, update_of_ne hne, update_self, UInt16.toNat_add, R.count h hh, R.count i hi,
      hperm.length_eq, List.length_append]
    exact Nat.mod_eq_of_lt hlt
  · intro h' hh' hne'
    by_cases hi' : h' = i
    · subst hi'
      rw [hc]
      refine ⟨?_, fun x hx => ?_⟩
      · show update _ h' 0 h' = update _ h' 0 h'
        rw [update_self, update_self]
      · rw [update_self] at hx
        rw [List.mem_singleton.mp hx, hpi, hni]
        exact ⟨by simp, by simp⟩
    · rw [hc]
      refine ⟨?_, fun x hx => ?_⟩
      · show update (update m.count h _) i 0 h' = update m.count i 0 h'
        rw [update_of_ne hi', update_of_ne hne', update_of_ne hi']
      rw [update_of_ne hi'] at hx
      have hxi := R.ne_of_ne hi hh' hi' hx List.mem_cons_self
      have hf := hframe x (fun hc => R.disjoint h' hh' h hh hne' hx hc)
        (fun hc => R.disjoint h' hh' i hi hi' hx hc)
      rw [hf.1, hf.2]
      exact ⟨(update_of_ne hxi ..).symm, (update_of_ne hxi ..).symm⟩

/-- The first and the last cell of a queue that is not empty. -/
theorem ends (R : Represents heads m Q) (hi : i ∈ heads) (hq : Q i ≠ []) :
    m.pprev i = (Q i).getLast hq ∧ m.pnext i = (Q i).head hq ∧ m.pprev i ∈ Q i ∧ m.pnext i ∈ Q i ∧
      m.count i ≠ 0 := by
  have hl : m.pprev i = (Q i).getLast hq := (R.pprev_head hi).trans (List.getLast_cons hq)
  have hf : m.pnext i = (Q i).head hq := (R.pnext_head hi).trans (List.head_append_of_ne_nil hq)
  refine ⟨hl, hf, hl ▸ List.getLast_mem hq, hf ▸ List.head_mem hq, fun hc => ?_⟩
  have hlen := R.count i hi
  rw [hc] at hlen
  exact hq (List.length_eq_zero_iff.mp hlen.symm)

theorem isChain (R : Represents heads m Q) (hi : i ∈ heads) : (Q i).IsChain m.links.Linked :=
  Links.Circular.isChain (R.circular i hi) (l := [i])

theorem not_mem (R : Represents heads m Q) (hi : i ∈ heads) : i ∉ Q i :=
  (List.nodup_cons.mp (R.nodup i hi)).1

theorem nodup_append (R : Represents heads m Q) (hh : h ∈ heads) (hi : i ∈ heads) (hne : h ≠ i) :
    ((h :: Q h) ++ Q i).Nodup := by
  refine List.nodup_append.mpr ⟨R.nodup h hh, (R.nodup i hi).of_cons, fun a ha b hb => ?_⟩
  rintro rfl
  exact R.disjoint h hh i hi hne ha (List.mem_cons_of_mem _ hb)

theorem ne_head (R : Represents heads m Q) (hh : h ∈ heads) (hi : i ∈ heads) (hne : h ≠ i)
    (hx : x ∈ (h :: Q h) ++ Q i) : x ≠ i := by
  rintro rfl
  rcases List.mem_append.mp hx with hx | hx
  · exact R.disjoint h hh x hi hne hx List.mem_cons_self
  · exact R.not_mem hi hx

theorem insertTail (R : Represents heads m Q) (hh : h ∈ heads) (hi : i ∈ heads) (hne : h ≠ i)
    (hq : Q i ≠ []) (hlt : (Q h).length + (Q i).length < 2 ^ 16) :
    ∃ m', nstInsertCellQue h i NST_TRUE m = .ok m' ∧
      Represents heads m' (update (update Q h (Q h ++ Q i)) i []) := by
  have hlast := R.pprev_mem hh
  obtain ⟨hil, hif, hilm, hifm, hcount⟩ := R.ends hi hq
  have hilm' := List.mem_cons_of_mem i hilm
  have hifm' := List.mem_cons_of_mem i hifm
  have hhead : h ∈ h :: Q h := List.mem_cons_self
  refine ⟨_, nstInsertCellQue_tail (R.ne_null hh hhead) (R.ne_null hi List.mem_cons_self) hcount
    (R.ne_null hh hlast) (R.ne_null hi hifm') (R.ne_null hi hilm'), ?_⟩
  refine R.merge hh hi hne (.refl _) hlt ?_ (update_self ..) (update_self ..) rfl ?_
  · show Links.Circular _ ((h :: Q h) ++ Q i)
    have h1 : m.pprev h ≠ i := R.ne_head hh hi hne (List.mem_append_left _ hlast)
    have h2 : m.pprev h ≠ m.pprev i := R.ne_of_ne hi hh hne hlast hilm'
    have h3 : m.pnext i ≠ i := ne_of_mem_of_not_mem hifm (R.not_mem hi)
    have h4 : m.pnext i ≠ h := R.ne_of_ne hh hi hne.symm hifm' hhead
    have h5 : m.pprev i ≠ i := ne_of_mem_of_not_mem hilm (R.not_mem hi)
    refine (R.circular h hh).splice (R.isChain hi) (List.cons_ne_nil _ _) hq (R.nodup_append hh hi hne)
      ?_ ?_ ?_ ?_
    · rw [← R.pprev_head hh, ← hif]
      exact ⟨by simp [Mem.links, h1, h2], by simp [Mem.links, h3, h4]⟩
    · rw [← hil]
      exact ⟨by simp [Mem.links, h5], by simp [Mem.links, hne]⟩
    · intro x hx hxl hxi
      rw [← R.pprev_head hh] at hxl
      rw [← hil] at hxi
      show update (update (update m.pnext _ _) _ _) i i x = m.pnext x
      rw [update_of_ne (R.ne_head hh hi hne hx), update_of_ne hxi, update_of_ne hxl]
    · intro x hx (hxh : x ≠ h) hxf
      rw [← hif] at hxf
      show update (update (update m.pprev _ _) _ _) i i x = m.pprev x
      rw [update_of_ne (R.ne_head hh hi hne hx), update_of_ne hxh, update_of_ne hxf]
  · intro x hxh hxi
    have h1 : x ≠ h := (ne_of_mem_of_not_mem hhead hxh).symm
    have h2 : x ≠ i := (ne_of_mem_of_not_mem List.mem_cons_self hxi).symm
    have h3 : x ≠ m.pprev h := (ne_of_mem_of_not_mem hlast hxh).symm
    have h4 : x ≠ m.pprev i := (ne_of_mem_of_not_mem hilm' hxi).symm
    have h5 : x ≠ m.pnext i := (ne_of_mem_of_not_mem hifm' hxi).symm
    simp only
    rw [update_of_ne h2, update_of_ne h4, update_of_ne h3, update_of_ne h2, update_of_ne h1,
      update_of_ne h5]
    exact ⟨rfl, rfl⟩

theorem insertHead {t : UInt8} (ht : t ≠ NST_TRUE) (R : Represents heads m Q) (hh : h ∈ heads)
    (hi : i ∈ heads) (hne : h ≠ i) (hq : Q i ≠ [])
    (hlt : (Q h).length + (Q i).length < 2 ^ 16) :
    ∃ m', nstInsertCellQue h i t m = .ok m' ∧
      Represents heads m' (update (update Q h (Q i ++ Q h)) i []) := by
  have hfirst := R.pnext_mem hh
  obtain ⟨hil, hif, hilm, hifm, hcount⟩ := R.ends hi hq
  have hilm' := List.mem_cons_of_mem i hilm
  have hifm' := List.mem_cons_of_mem i hifm
  have hhead : h ∈ h :: Q h := List.mem_cons_self
  have hperm : ((Q h ++ [h]) ++ Q i).Perm ((h :: Q h) ++ Q i) :=
    (List.perm_append_singleton h (Q h)).append_right _
  refine ⟨_, nstInsertCellQue_head ht (R.ne_null hh hhead) (R.ne_null hi List.mem_cons_self) hcount
    (R.ne_null hh hfirst) (R.ne_null hi hifm') (R.ne_null hi hilm'), ?_⟩
  refine R.merge hh hi hne List.perm_append_comm hlt ?_ (update_self ..) (update_self ..) rfl ?_
  · show Links.Circular _ ([h] ++ Q i ++ Q h)
    rw [Links.Circular.comm, ← List.append_assoc]
    have hring : m.links.Circular (Q h ++ [h]) :=
      (Links.Circular.comm _ [h] _).mp (R.circular h hh)
    have h1 : m.pnext i ≠ i := ne_of_mem_of_not_mem hifm (R.not_mem hi)
    have h2 : m.pprev i ≠ i := ne_of_mem_of_not_mem hilm (R.not_mem hi)
    have h3 : m.pprev i ≠ h := R.ne_of_ne hh hi hne.symm hilm' hhead
    have h4 : m.pnext h ≠ i := R.ne_head hh hi hne (List.mem_append_left _ hfirst)
    have h5 : m.pnext h ≠ m.pnext i := R.ne_of_ne hi hh hne hfirst hifm'
    refine hring.splice (R.isChain hi)
      (List.append_ne_nil_of_right_ne_nil _ (List.cons_ne_nil _ _)) hq
      (hperm.nodup_iff.mpr (R.nodup_append hh hi hne)) ?_ ?_ ?_ ?_
    · rw [List.getLast_append_singleton, ← hif]
      exact ⟨by simp [Mem.links, hne], by simp [Mem.links, h1]⟩
    · rw [← R.pnext_head hh, ← hil]
      exact ⟨by simp [Mem.links, h2, h3], by simp [Mem.links, h4, h5]⟩
    · intro x hx hxh hxl
      rw [List.getLast_append_singleton] at hxh
      rw [← hil] at hxl
      show update (update (update m.pnext _ _) _ _) i i x = m.pnext x
      rw [update_of_ne (R.ne_head hh hi hne (hperm.mem_iff.mp hx)), update_of_ne hxh,
        update_of_ne hxl]
    · intro x hx hxf hxi
      rw [← R.pnext_head hh] at hxf
      rw [← hif] at hxi
      show update (update (update m.pprev _ _) _ _) i i x = m.pprev x
      rw [update_of_ne (R.ne_head hh hi hne (hperm.mem_iff.mp hx)), update_of_ne hxi,
        update_of_ne hxf]
  · intro x hxh hxi
    have h1 : x ≠ h := (ne_of_mem_of_not_mem hhead hxh).symm
    have h2 : x ≠ i := (ne_of_mem_of_not_mem List.mem_cons_self hxi).symm
    have h3 : x ≠ m.pnext h := (ne_of_mem_of_not_mem hfirst hxh).symm
    have h4 : x ≠ m.pprev i := (ne_of_mem_of_not_mem hilm' hxi).symm
    have h5 : x ≠ m.pnext i := (ne_of_mem_of_not_mem hifm' hxi).symm
    simp only
    rw [update_of_ne h2, update_of_ne h1, update_of_ne h4, update_of_ne h2, update_of_ne h5,
      update_of_ne h3]
    exact ⟨rfl, rfl⟩

/-- **Inserting a queue moves all its cells.** -/
theorem insertCellQue (t : UInt8) (R : Represents heads m Q) (hh : h ∈ heads) (hi : i ∈ heads)
    (hne : h ≠ i) (hlt : (Q h).length + (Q i).length < 2 ^ 16) :
    ∃ m', nstInsertCellQue h i t m = .ok m' ∧ Represents heads m'
      (update (update Q h (if t = NST_TRUE then Q h ++ Q i else Q i ++ Q h)) i []) := by
  by_cases hq : Q i = []
  · have hzero : m.count i = 0 := by
      rw [← UInt16.toNat_inj, R.count i hi, hq]
      rfl
    refine ⟨m, ?_, ?_⟩
    · rw [nstInsertCellQue, Mem.getCount, if_neg (R.ne_null hi List.mem_cons_self)]
      simp only [Outcome.ok_bind]
      rw [if_pos hzero]
    · rw [hq, List.append_nil, List.nil_append, ite_self, update_eq_self, ← hq, update_eq_self]
      exact R
  · by_cases ht : t = NST_TRUE
    · subst ht
      rw [if_pos rfl]
      exact R.insertTail hh hi hne hq hlt
    · rw [if_neg ht]
      exact R.insertHead ht hh hi hne hq hlt

end Represents

end Nl6621.Util
