import Mathlib.Tactic.Common
import Nl6621.Lib.Nor
import Nl6621.Lib.While
import Nl6621.Lib.Words

/-!
# The flash commands

The part of `flash.c` that the agent writes and reads its data with.  The device behind the bus is
a `Nor` with pages of 256 and sectors of 4096 bytes; a command carries the low 24 bits of its
address.  Buffers are functions from the offset, and the pointers into them offsets.

`qSpiFlashRead_spec` and `qSpiWriteAny_spec` are what the two loops come to: reading
copies the range, in bursts of 65536 bytes, and writing ands the bytes in, in commands
none of which runs over the end of a page.
-/

namespace Nl6621.Flash

open Lib

def MAX_FLASH_RD_SIZE : UInt32 := 65536

def FLASH_PAGE_SIZE : Nat := 256

def FLASH_SECTOR_SIZE : Nat := 4096

/-- The three address bytes of a command. -/
def flashAdr (adr : UInt32) : Nat := adr.toNat % 2 ^ 24

/-! ### The functions of the source -/

structure ReadLoop where
  ReadAddr : UInt32
  /-- How far `pRxData` has moved. -/
  off : Nat
  DnldByteCnt : UInt32
  buf : Nat → UInt8

def readRound (f : Nor) (Len : UInt32) (s : ReadLoop) : Fueled (ReadLoop ⊕ (Nat → UInt8)) :=
  if Len > s.DnldByteCnt then
    let RdCnt :=
      if Len - s.DnldByteCnt > MAX_FLASH_RD_SIZE then MAX_FLASH_RD_SIZE else Len - s.DnldByteCnt
    .ok (.inl {
      ReadAddr := s.ReadAddr + RdCnt
      off := s.off + RdCnt.toNat
      DnldByteCnt := s.DnldByteCnt + RdCnt
      buf := laid s.buf s.off RdCnt.toNat fun i => f.cell ((flashAdr s.ReadAddr + i) % 2 ^ 24) })
  else .ok (.inr s.buf)

def qSpiFlashRead (fuel : Nat) (ReadStartPos : UInt32) (pBuf : Nat → UInt8) (Len : UInt32) (f : Nor) :
    Fueled (Nat → UInt8) :=
  whileLoop (readRound f Len) fuel ⟨ReadStartPos, 0, 0, pBuf⟩

def qSpiFlashWriteOnePage (Adr : UInt32) (pBuf : Nat → UInt8) (DataLen : UInt16) (f : Nor) : Nor :=
  f.program FLASH_PAGE_SIZE (flashAdr Adr) DataLen.toNat pBuf

def qSpiFlashEraseSector (SectorAddr : UInt32) (f : Nor) : Nor :=
  f.erase FLASH_SECTOR_SIZE (flashAdr SectorAddr)

structure PageLoop where
  WriteAddr : UInt32
  /-- How far `pData` has moved. -/
  off : Nat
  DataLen : UInt16
  pageremain : UInt16
  f : Nor

def pageRound (pData : Nat → UInt8) (s : PageLoop) : Fueled (PageLoop ⊕ Nor × Int) :=
  let f := qSpiFlashWriteOnePage s.WriteAddr (fun i => pData (s.off + i)) s.pageremain s.f
  if s.DataLen = s.pageremain then .ok (.inr (f, 0))
  else
    let DataLen := s.DataLen - s.pageremain
    .ok (.inl {
      WriteAddr := s.WriteAddr + s.pageremain.toUInt32
      off := s.off + s.pageremain.toNat
      DataLen
      pageremain := if DataLen > 256 then 256 else DataLen
      f })

def qSpiWriteAny (fuel : Nat) (WriteAddr : UInt32) (pData : Nat → UInt8) (DataLen : UInt16) (f : Nor) :
    Fueled (Nor × Int) :=
  let pageremain := (256 - WriteAddr % 256).toUInt16
  let pageremain := if DataLen ≤ pageremain then DataLen else pageremain
  whileLoop (pageRound pData) fuel ⟨WriteAddr, 0, DataLen, pageremain, f⟩

/-! ### Reading -/

variable {f : Nor} {fuel : Nat}

/-- The loop of `QSpiFlashRead` when `s.off` bytes have been read. -/
structure Reading (f : Nor) (addr Len : UInt32) (pBuf : Nat → UInt8) (s : ReadLoop) : Prop where
  ReadAddr : s.ReadAddr.toNat = addr.toNat + s.off
  DnldByteCnt : s.DnldByteCnt.toNat = s.off
  off_le : s.off ≤ Len.toNat
  buf : s.buf = laid pBuf 0 s.off fun i => f.cell (addr.toNat + i)

theorem readRound_step {addr Len : UInt32} {pBuf : Nat → UInt8} {s : ReadLoop}
    (hin : addr.toNat + Len.toNat ≤ 2 ^ 24) (h : Reading f addr Len pBuf s) :
    (readRound f Len s = .ok (.inr s.buf) ∧ s.off = Len.toNat) ∨
      ∃ s', readRound f Len s = .ok (.inl s') ∧ Reading f addr Len pBuf s' ∧ s.off < s'.off := by
  have hd := h.DnldByteCnt
  have ha := h.ReadAddr
  have hle := h.off_le
  rw [readRound]
  by_cases hgt : Len > s.DnldByteCnt
  · have hlt : s.DnldByteCnt.toNat < Len.toNat := UInt32.lt_iff_toNat_lt.mp hgt
    have hsub := toNat_sub_of_le (Nat.le_of_lt hlt)
    have hmax : MAX_FLASH_RD_SIZE.toNat = 65536 := rfl
    rw [if_pos hgt]
    -- a burst of at least one byte, and no more than is left
    have hcnt : ∃ r : UInt32, r = (if Len - s.DnldByteCnt > MAX_FLASH_RD_SIZE then MAX_FLASH_RD_SIZE
        else Len - s.DnldByteCnt) ∧ 0 < r.toNat ∧ s.off + r.toNat ≤ Len.toNat := by
      by_cases hmore : Len - s.DnldByteCnt > MAX_FLASH_RD_SIZE
      · have hm : MAX_FLASH_RD_SIZE.toNat < (Len - s.DnldByteCnt).toNat :=
          UInt32.lt_iff_toNat_lt.mp hmore
        exact ⟨_, (if_pos hmore).symm, by omega, by omega⟩
      · exact ⟨_, (if_neg hmore).symm, by omega, by omega⟩
    obtain ⟨r, hr, hpos, hfit⟩ := hcnt
    rw [← hr]
    refine .inr ⟨_, rfl, ⟨?_, ?_, hfit, ?_⟩, by show s.off < s.off + r.toNat; omega⟩
    · show (s.ReadAddr + r).toNat = addr.toNat + (s.off + r.toNat)
      rw [toNat_add_of_lt (by omega)]
      omega
    · show (s.DnldByteCnt + r).toNat = s.off + r.toNat
      rw [toNat_add_of_lt (by omega)]
      omega
    · show laid s.buf s.off r.toNat (fun i => f.cell ((flashAdr s.ReadAddr + i) % 2 ^ 24)) =
        laid pBuf 0 (s.off + r.toNat) fun i => f.cell (addr.toNat + i)
      rw [h.buf, ← laid_laid, Nat.zero_add]
      refine laid_congr fun i hi => ?_
      rw [flashAdr, ha, Nat.mod_eq_of_lt (show addr.toNat + s.off < 2 ^ 24 by omega),
        Nat.mod_eq_of_lt (by omega), Nat.add_assoc]
  · have hge : ¬ s.DnldByteCnt.toNat < Len.toNat := fun hc => hgt (UInt32.lt_iff_toNat_lt.mpr hc)
    rw [if_neg hgt]
    exact .inl ⟨rfl, by omega⟩

/-- **Reading copies the range.** -/
theorem qSpiFlashRead_spec {addr Len : UInt32} {pBuf : Nat → UInt8}
    (hin : addr.toNat + Len.toNat ≤ 2 ^ 24) (hfuel : Len.toNat < fuel) :
    qSpiFlashRead fuel addr pBuf Len f =
      .ok (laid pBuf 0 Len.toNat fun i => f.cell (addr.toNat + i)) := by
  have hinit : Reading f addr Len pBuf ⟨addr, 0, 0, pBuf⟩ :=
    ⟨rfl, rfl, Nat.zero_le _, laid_zero.symm⟩
  obtain ⟨buf, hl, hq⟩ := whileLoop_total (I := Reading f addr Len pBuf)
    (m := fun s => Len.toNat - s.off)
    (Q := fun buf => buf = laid pBuf 0 Len.toNat fun i => f.cell (addr.toNat + i))
    (fun s hs => by
      rcases readRound_step hin hs with ⟨hb, hoff⟩ | ⟨s', hb, hs', hlt⟩
      · exact .inl ⟨_, hb, hoff ▸ hs.buf⟩
      · exact .inr ⟨s', hb, hs', by have := hs'.off_le; omega⟩)
    fuel _ hinit (by show Len.toNat - 0 < fuel; omega)
  rw [qSpiFlashRead, hl, hq]

/-! ### Writing -/

/-- The commands from `f` on stay inside their pages. -/
def InPages (f f' : Nor) : Prop := ∃ cs, f'.log = f.log ++ cs ∧ ∀ c ∈ cs, c.InPage FLASH_PAGE_SIZE

theorem InPages.refl (f : Nor) : InPages f f := ⟨[], (List.append_nil _).symm, fun _ hc => (by cases hc)⟩

theorem InPages.trans {f₁ f₂ f₃ : Nor} (h : InPages f₁ f₂) (h' : InPages f₂ f₃) : InPages f₁ f₃ := by
  obtain ⟨cs, hl, hc⟩ := h
  obtain ⟨cs', hl', hc'⟩ := h'
  refine ⟨cs ++ cs', by rw [hl', hl, List.append_assoc], fun c hmem => ?_⟩
  rcases List.mem_append.mp hmem with hmem | hmem
  · exact hc c hmem
  · exact hc' c hmem

theorem toNat_toUInt32_16 (a : UInt16) : a.toUInt32.toNat = a.toNat := rfl

/-- A page write that stays inside its page. -/
theorem qSpiFlashWriteOnePage_spec {adr : UInt32} {d : Nat → UInt8} {n : UInt16}
    (hadr : adr.toNat < 2 ^ 24) (hpage : adr.toNat % FLASH_PAGE_SIZE + n.toNat ≤ FLASH_PAGE_SIZE) :
    (qSpiFlashWriteOnePage adr d n f).cell = anded f.cell adr.toNat n.toNat d ∧
      InPages f (qSpiFlashWriteOnePage adr d n f) := by
  have ha : flashAdr adr = adr.toNat := Nat.mod_eq_of_lt hadr
  rw [qSpiFlashWriteOnePage, ha]
  refine ⟨cell_program hpage, [.program adr.toNat n.toNat], rfl, fun c hc => ?_⟩
  rw [List.mem_singleton.mp hc]
  exact hpage

/-- The loop of `QSpiWriteAny` when `s.off` bytes have been written. -/
structure Paging (f : Nor) (addr : UInt32) (pData : Nat → UInt8) (n : Nat) (s : PageLoop) : Prop where
  WriteAddr : s.WriteAddr.toNat = addr.toNat + s.off
  DataLen : s.DataLen.toNat = n - s.off
  off_le : s.off ≤ n
  remain_le : s.pageremain.toNat ≤ s.DataLen.toNat
  remain_pos : 0 < s.DataLen.toNat → 0 < s.pageremain.toNat
  inPage : s.WriteAddr.toNat % FLASH_PAGE_SIZE + s.pageremain.toNat ≤ FLASH_PAGE_SIZE
  /-- What is left starts a page. -/
  aligned : s.pageremain.toNat < s.DataLen.toNat →
    s.WriteAddr.toNat % FLASH_PAGE_SIZE + s.pageremain.toNat = FLASH_PAGE_SIZE
  cell : s.f.cell = anded f.cell addr.toNat s.off pData
  log : InPages f s.f

/-- What `QSpiWriteAny` leaves. -/
def Wrote (f : Nor) (a n : Nat) (d : Nat → UInt8) (r : Nor × Int) : Prop :=
  r.1.cell = anded f.cell a n d ∧ InPages f r.1 ∧ r.2 = 0

theorem pageRound_step {addr : UInt32} {pData : Nat → UInt8} {n : Nat} {s : PageLoop}
    (hin : addr.toNat + n < 2 ^ 24) (h : Paging f addr pData n s) :
    (∃ r, pageRound pData s = .ok (.inr r) ∧ Wrote f addr.toNat n pData r) ∨
      ∃ s', pageRound pData s = .ok (.inl s') ∧ Paging f addr pData n s' ∧ s.off < s'.off := by
  have ha := h.WriteAddr
  have hd := h.DataLen
  have hle := h.off_le
  have hr := h.remain_le
  have hpos := h.remain_pos
  have hpage := h.inPage
  have hal := h.aligned
  obtain ⟨hcell, hlog⟩ := qSpiFlashWriteOnePage_spec (f := s.f) (d := fun i => pData (s.off + i))
    (n := s.pageremain) (show s.WriteAddr.toNat < 2 ^ 24 by omega) hpage
  rw [h.cell, ha, anded_anded] at hcell
  rw [pageRound]
  simp only
  by_cases hlast : s.DataLen = s.pageremain
  · have heq : s.DataLen.toNat = s.pageremain.toNat := by rw [hlast]
    rw [if_pos hlast]
    refine .inl ⟨_, rfl, ?_, h.log.trans hlog, rfl⟩
    rw [hcell]
    congr 1
    omega
  · have hne : s.DataLen.toNat ≠ s.pageremain.toNat := fun hc => hlast (UInt16.toNat_inj.mp hc)
    have hsub : (s.DataLen - s.pageremain).toNat = s.DataLen.toNat - s.pageremain.toNat :=
      UInt16.toNat_sub_of_le _ _ (UInt16.le_iff_toNat_le.mpr hr)
    have hadd : (s.WriteAddr + s.pageremain.toUInt32).toNat =
        s.WriteAddr.toNat + s.pageremain.toNat := by
      rw [toNat_add_of_lt (by rw [toNat_toUInt32_16]; omega), toNat_toUInt32_16]
    have hpage256 : FLASH_PAGE_SIZE = 256 := rfl
    have h256 : (256 : UInt16).toNat = 256 := rfl
    have hmod := hal (by omega)
    have hstart : (s.WriteAddr + s.pageremain.toUInt32).toNat % FLASH_PAGE_SIZE = 0 := by
      rw [hpage256] at hmod ⊢
      omega
    rw [if_neg hlast]
    refine .inr ⟨_, rfl, ?_, by show s.off < s.off + s.pageremain.toNat; omega⟩
    -- the next part: a whole page, or all that is left
    have hnext : (if s.DataLen - s.pageremain > 256 then 256 else s.DataLen - s.pageremain).toNat =
        min 256 (s.DataLen.toNat - s.pageremain.toNat) := by
      by_cases hmore : s.DataLen - s.pageremain > 256
      · have hgt : 256 < (s.DataLen - s.pageremain).toNat := UInt16.lt_iff_toNat_lt.mp hmore
        rw [if_pos hmore]
        omega
      · have hgt : ¬ 256 < (s.DataLen - s.pageremain).toNat :=
          fun hc => hmore (UInt16.lt_iff_toNat_lt.mpr hc)
        rw [if_neg hmore]
        omega
    refine ⟨?_, ?_, ?_, ?_, ?_, ?_, ?_, hcell, h.log.trans hlog⟩
    · exact hadd.trans (by show _ = addr.toNat + (s.off + s.pageremain.toNat); omega)
    · exact hsub.trans (by show _ = n - (s.off + s.pageremain.toNat); omega)
    · show s.off + s.pageremain.toNat ≤ n
      omega
    · refine Nat.le_trans (Nat.le_of_eq hnext) ?_
      show _ ≤ (s.DataLen - s.pageremain).toNat
      omega
    · intro _
      exact lt_of_lt_of_eq (by omega) hnext.symm
    · exact Nat.le_trans (Nat.le_of_eq (congrArg₂ (· + ·) hstart hnext)) (by omega)
    · intro hlt
      have hlt : min 256 (s.DataLen.toNat - s.pageremain.toNat) <
          (s.DataLen - s.pageremain).toNat := hnext ▸ hlt
      exact (congrArg₂ (· + ·) hstart hnext).trans (by omega)

/-- **Writing ands the bytes in, page by page.** -/
theorem qSpiWriteAny_spec {addr : UInt32} {pData : Nat → UInt8} {DataLen : UInt16}
    (hin : addr.toNat + DataLen.toNat < 2 ^ 24) (hfuel : DataLen.toNat < fuel) :
    ∃ r, qSpiWriteAny fuel addr pData DataLen f = .ok r ∧
      Wrote f addr.toNat DataLen.toNat pData r := by
  have hpage256 : FLASH_PAGE_SIZE = 256 := rfl
  have hremain : (256 - addr % 256).toUInt16.toNat = 256 - addr.toNat % 256 := by
    have hmod : (addr % 256).toNat = addr.toNat % 256 := UInt32.toNat_mod _ _
    have h256 : (256 : UInt32).toNat = 256 := rfl
    have hsub : (256 - addr % 256).toNat = 256 - addr.toNat % 256 := by
      rw [toNat_sub_of_le (by omega), hmod, h256]
    rw [UInt32.toNat_toUInt16, hsub, Nat.mod_eq_of_lt (by omega)]
  rw [qSpiWriteAny]
  generalize (256 - addr % 256).toUInt16 = rest at hremain ⊢
  have hfirst : (if DataLen ≤ rest then DataLen else rest).toNat = min DataLen.toNat rest.toNat := by
    by_cases hle : DataLen ≤ rest
    · have hn : DataLen.toNat ≤ rest.toNat := UInt16.le_iff_toNat_le.mp hle
      rw [if_pos hle]
      omega
    · have hn : ¬ DataLen.toNat ≤ rest.toNat := fun hc => hle (UInt16.le_iff_toNat_le.mpr hc)
      rw [if_neg hle]
      omega
  generalize (if DataLen ≤ rest then DataLen else rest) = first at hfirst ⊢
  have hinit : Paging f addr pData DataLen.toNat ⟨addr, 0, DataLen, first, f⟩ := by
    refine ⟨rfl, rfl, Nat.zero_le _, ?_, fun hpos => ?_, ?_, fun hlt => ?_, anded_zero.symm, .refl f⟩
    · show first.toNat ≤ DataLen.toNat
      omega
    · have hpos : 0 < DataLen.toNat := hpos
      show 0 < first.toNat
      omega
    · show addr.toNat % FLASH_PAGE_SIZE + first.toNat ≤ FLASH_PAGE_SIZE
      rw [hpage256]
      omega
    · have hlt : first.toNat < DataLen.toNat := hlt
      show addr.toNat % FLASH_PAGE_SIZE + first.toNat = FLASH_PAGE_SIZE
      rw [hpage256]
      omega
  refine whileLoop_total (m := fun s => DataLen.toNat - s.off) (fun s hs => ?_) fuel _ hinit
    (by show DataLen.toNat - 0 < fuel; omega)
  rcases pageRound_step hin hs with hr | ⟨s', hb, hs', hlt⟩
  · exact .inl hr
  · exact .inr ⟨s', hb, hs', by have := hs'.off_le; omega⟩

end Nl6621.Flash
