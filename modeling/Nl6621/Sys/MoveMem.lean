import Nl6621.Lib.Memory

/-!
# `NST_MoveMemOvlap`

The overlapping move of `util.c`: byte by byte, from the last byte when the
destination lies above the source, from the first byte otherwise.  A block
stands for the memory the two pointers point into, and the pointers are offsets
in it.

`moveForward_spec` follows the copy upwards: as long as the destination is not
above the source, no byte is overwritten before it has been read.
`moveBackward_spec` is the same for the copy downwards, to a destination not below
the source.
-/

namespace Nl6621.Sys

open Lib

/-- `*pDst = *pSrc;` -/
def moveByte (mem : Block) (dst src : Nat) : Outcome Block :=
  match mem[src]? with
  | none => .fault
  | some c => if dst < mem.length then .ok (mem.set dst c) else .fault

/-- `while (Size > 0) { *pDst++ = *pSrc++; Size--; }` -/
def moveForward : Nat → Nat → Nat → Block → Outcome Block
  | 0, _, _, mem => .ok mem
  | size + 1, dst, src, mem => do
    let mem ← moveByte mem dst src
    moveForward size (dst + 1) (src + 1) mem

/-- The copy from the last byte down; the pointers start at `p + Size - 1`. -/
def moveBackward : Nat → Nat → Nat → Block → Outcome Block
  | 0, _, _, mem => .ok mem
  | size + 1, dst, src, mem => do
    let mem ← moveByte mem (dst + size) (src + size)
    moveBackward size dst src mem

/-- `Size` is a `UINT16`. -/
def nstMoveMemOvlap (mem : Block) (dst src size : Nat) : Outcome Block :=
  if dst > src then moveBackward (size % 2 ^ 16) dst src mem
  else moveForward (size % 2 ^ 16) dst src mem

theorem moveByte_ok {mem : Block} {dst src : Nat} {c : Cell} (hs : mem[src]? = some c)
    (hd : dst < mem.length) : moveByte mem dst src = .ok (mem.set dst c) := by
  simp only [moveByte, hs, if_pos hd]

/-- **The upward copy.**  With the destination not above the source, the range
behind `dst` receives the original bytes behind `src`, and nothing else changes. -/
theorem moveForward_spec : ∀ (size dst src : Nat) (mem : Block), dst ≤ src →
    src + size ≤ mem.length →
    ∃ mem', moveForward size dst src mem = .ok mem' ∧ mem'.length = mem.length ∧
      ∀ i, mem'[i]? = if dst ≤ i ∧ i < dst + size then mem[src + (i - dst)]? else mem[i]? := by
  intro size
  induction size with
  | zero =>
    intro dst src mem _ _
    refine ⟨mem, rfl, rfl, fun i => ?_⟩
    rw [if_neg (by omega)]
  | succ size ih =>
    intro dst src mem hle hfit
    have hs : mem[src]? = some (mem[src]) := List.getElem?_eq_getElem (by omega)
    obtain ⟨mem', hrun, hlen, hget⟩ := ih (dst + 1) (src + 1) (mem.set dst mem[src]) (by omega)
      (by rw [List.length_set]; omega)
    refine ⟨mem', ?_, by rw [hlen, List.length_set], fun i => ?_⟩
    · rw [moveForward, moveByte_ok hs (by omega)]
      exact hrun
    · rw [hget i]
      rcases Nat.lt_trichotomy i dst with hi | hi | hi
      · rw [if_neg (by omega), if_neg (by omega), List.getElem?_set_ne (by omega)]
      · subst hi
        rw [if_neg (by omega), if_pos (by omega), List.getElem?_set_self (by omega), Nat.sub_self,
          Nat.add_zero, hs]
      · by_cases hin : i < dst + (size + 1)
        · rw [if_pos (by omega), if_pos (by omega), List.getElem?_set_ne (by omega)]
          congr 1
          omega
        · rw [if_neg (by omega), if_neg (by omega), List.getElem?_set_ne (by omega)]

/-- **The downward copy.**  With the destination not below the source, the range
behind `dst` receives the original bytes behind `src`, and nothing else changes. -/
theorem moveBackward_spec : ∀ (size dst src : Nat) (mem : Block), src ≤ dst →
    dst + size ≤ mem.length →
    ∃ mem', moveBackward size dst src mem = .ok mem' ∧ mem'.length = mem.length ∧
      ∀ i, mem'[i]? = if dst ≤ i ∧ i < dst + size then mem[src + (i - dst)]? else mem[i]? := by
  intro size
  induction size with
  | zero =>
    intro dst src mem _ _
    refine ⟨mem, rfl, rfl, fun i => ?_⟩
    rw [if_neg (by omega)]
  | succ size ih =>
    intro dst src mem hle hfit
    have hs : mem[src + size]? = some (mem[src + size]) := List.getElem?_eq_getElem (by omega)
    obtain ⟨mem', hrun, hlen, hget⟩ := ih dst src (mem.set (dst + size) mem[src + size]) hle
      (by rw [List.length_set]; omega)
    refine ⟨mem', ?_, by rw [hlen, List.length_set], fun i => ?_⟩
    · rw [moveBackward, moveByte_ok hs (by omega)]
      exact hrun
    · rw [hget i]
      rcases Nat.lt_trichotomy i (dst + size) with hi | hi | hi
      · by_cases hin : dst ≤ i
        · rw [if_pos (by omega), if_pos (by omega), List.getElem?_set_ne (by omega)]
        · rw [if_neg (by omega), if_neg (by omega), List.getElem?_set_ne (by omega)]
      · subst hi
        rw [if_neg (by omega), if_pos (by omega), List.getElem?_set_self (by omega),
          Nat.add_sub_cancel_left, hs]
      · rw [if_neg (by omega), if_neg (by omega), List.getElem?_set_ne (by omega)]

/-- **The overlapping move.**  Whichever range is the higher one and wherever they overlap, the
destination receives the original bytes of the source, and nothing else changes. -/
theorem nstMoveMemOvlap_spec (mem : Block) (dst src : Nat) (size : UInt16)
    (hsrc : src + size.toNat ≤ mem.length) (hdst : dst + size.toNat ≤ mem.length) :
    ∃ mem', nstMoveMemOvlap mem dst src size.toNat = .ok mem' ∧ mem'.length = mem.length ∧
      (∀ i, i < size.toNat → mem'[dst + i]? = mem[src + i]?) ∧
      ∀ i, i < dst ∨ dst + size.toNat ≤ i → mem'[i]? = mem[i]? := by
  obtain ⟨mem', hrun, hlen, hget⟩ : ∃ mem', nstMoveMemOvlap mem dst src size.toNat = .ok mem' ∧
      mem'.length = mem.length ∧ ∀ i, mem'[i]? =
        if dst ≤ i ∧ i < dst + size.toNat then mem[src + (i - dst)]? else mem[i]? := by
    rw [nstMoveMemOvlap, Nat.mod_eq_of_lt size.toNat_lt]
    split
    · exact moveBackward_spec _ _ _ _ (by omega) hdst
    · exact moveForward_spec _ _ _ _ (by omega) hsrc
  refine ⟨mem', hrun, hlen, fun i hi => ?_, fun i hi => ?_⟩
  · rw [hget, if_pos (by omega), Nat.add_sub_cancel_left]
  · rw [hget, if_neg (by omega)]

/-- A move up by one byte, over a range of three. -/
theorem nstMoveMemOvlap_up_one :
    0 + (3 : UInt16).toNat ≤ [some 1, some 2, some 3, some 4].length ∧
    1 + (3 : UInt16).toNat ≤ [some 1, some 2, some 3, some 4].length ∧
    ∃ mem', nstMoveMemOvlap [some 1, some 2, some 3, some 4] 1 0 (3 : UInt16).toNat = .ok mem' ∧
      mem'.length = 4 ∧
      (∀ i, i < (3 : UInt16).toNat →
        mem'[1 + i]? = ([some 1, some 2, some 3, some 4] : Block)[0 + i]?) ∧
      ∀ i, i < 1 ∨ 1 + (3 : UInt16).toNat ≤ i →
        mem'[i]? = ([some 1, some 2, some 3, some 4] : Block)[i]? :=
  ⟨by decide, by decide, nstMoveMemOvlap_spec _ 1 0 3 (by decide) (by decide)⟩

end Nl6621.Sys
