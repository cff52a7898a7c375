import Nl6621.Flash.QSpi

/-!
# Writing data to the flash

`WriteFlash` goes through the sectors that the data touches.  Where the bytes to be written are
all erased it writes them, else it reads the sector, erases it, and writes it back with
the new bytes in it.  `flash_write_read`: either way the data is there afterwards, everything
else is as it was, and the loops end.

The loop's invariant (`Writing`) is that the flash is the old one with the first part of the
data laid over it.  The two ways through a sector leave the same cells (`burnSector_fast`,
`burnSector_slow`).
-/

namespace Nl6621.Flash

open Lib Function

/-! ### The functions of the source -/

def readFlash (fuel : Nat) (pBuf : Nat → UInt8) (DataLen ReadStartPos : UInt32) (f : Nor) :
    Fueled (Nat → UInt8) :=
  qSpiFlashRead fuel ReadStartPos pBuf DataLen f

/-- The loop that looks for a byte that is not erased, with `k` rounds to go; the index it
stops at. -/
def scanErased (flash_buf : Nat → UInt8) (sector_off : Nat) : Nat → Nat → Nat
  | 0, i => i
  | k + 1, i =>
    if flash_buf (sector_off + i) ≠ 0xff then i else scanErased flash_buf sector_off k (i + 1)

/-- The loop that puts the data into the buffer. -/
def fillBuf (flash_buf pData : Nat → UInt8) (sector_off : Nat) : Nat → Nat → UInt8
  | 0 => flash_buf
  | i + 1 => update (fillBuf flash_buf pData sector_off i) (sector_off + i) (pData i)

structure SectorLoop where
  sector_num : UInt8
  sector_off : UInt16
  secre_main : UInt16
  WriteAddr : UInt32
  /-- How far `pData` has moved. -/
  off : Nat
  DataLen : UInt32
  flash_buf : Nat → UInt8
  f : Nor

/-- The part of a round that writes; it leaves the buffer, the flash and the code of
`QSpiWriteAny`. -/
def burnSector (fuel : Nat) (pData : Nat → UInt8) (s : SectorLoop) :
    Fueled ((Nat → UInt8) × Nor × Int) := do
  let base := s.sector_num.toUInt32 * 4096
  let flash_buf ← qSpiFlashRead fuel base s.flash_buf 4096 s.f
  let i := scanErased flash_buf s.sector_off.toNat s.secre_main.toNat 0
  if i < s.secre_main.toNat then
    let f := qSpiFlashEraseSector base s.f
    let flash_buf := fillBuf flash_buf pData s.sector_off.toNat s.secre_main.toNat
    let r ← qSpiWriteAny fuel base flash_buf 4096 f
    .ok (flash_buf, r)
  else
    let r ← qSpiWriteAny fuel s.WriteAddr pData s.secre_main s.f
    .ok (flash_buf, r)

def sectorRound (fuel : Nat) (pData : Nat → UInt8) (s : SectorLoop) : Fueled (SectorLoop ⊕ Nor) := do
  let (flash_buf, f, code) ← burnSector fuel (fun i => pData (s.off + i)) s
  if code ≠ 0 then .ok (.inr f)
  else if s.DataLen = s.secre_main.toUInt32 then .ok (.inr f)
  else
    let DataLen := s.DataLen - s.secre_main.toUInt32
    .ok (.inl {
      sector_num := s.sector_num + 1
      sector_off := 0
      secre_main := if DataLen > 4096 then 4096 else DataLen.toUInt16
      WriteAddr := s.WriteAddr + s.secre_main.toUInt32
      off := s.off + s.secre_main.toNat
      DataLen
      flash_buf
      f })

/-- `flash_buf` is what `OSMMalloc` gave. -/
def writeFlash (fuel : Nat) (pData : Nat → UInt8) (DataLen BurnStartPos : UInt32)
    (flash_buf : Nat → UInt8) (f : Nor) : Fueled Nor :=
  let sector_num := (BurnStartPos / 4096).toUInt8
  let sector_off := (BurnStartPos % 4096).toUInt16
  let secre_main := 4096 - sector_off
  let secre_main := if DataLen ≤ secre_main.toUInt32 then DataLen.toUInt16 else secre_main
  whileLoop (sectorRound fuel pData) fuel
    ⟨sector_num, sector_off, secre_main, BurnStartPos, 0, DataLen, flash_buf, f⟩

/-! ### The loops over the buffer -/

/-- The scan gets to the end when all bytes are erased. -/
theorem scanErased_end (buf : Nat → UInt8) (off : Nat) : ∀ k i, ¬ scanErased buf off k i < i + k →
    ∀ j, i ≤ j → j < i + k → buf (off + j) = 0xff := by
  intro k
  induction k with
  | zero => intro i _ j h1 h2; omega
  | succ k ih =>
    intro i hend j h1 h2
    rw [scanErased] at hend
    by_cases hne : buf (off + i) ≠ 0xff
    · rw [if_pos hne] at hend
      omega
    · rw [if_neg hne] at hend
      by_cases hj : j = i
      · subst hj
        exact not_not.mp hne
      · exact ih (i + 1) (by omega) j (by omega) (by omega)

theorem fillBuf_eq (buf d : Nat → UInt8) (off : Nat) : ∀ n, fillBuf buf d off n = laid buf off n d := by
  intro n
  induction n with
  | zero => exact laid_zero.symm
  | succ n ih =>
    rw [fillBuf, ih]
    funext k
    by_cases hk : k = off + n
    · subst hk
      rw [update_self, laid_inside (by omega)]
    · rw [update_of_ne hk, laid, laid]
      by_cases hin : off ≤ k ∧ k < off + n
      · rw [if_pos hin, if_pos (by omega)]
      · rw [if_neg hin, if_neg (by omega)]

/-! ### One sector -/

variable {fuel : Nat} {d : Nat → UInt8} {s : SectorLoop}

/-- The place of a round: inside one sector of the first megabyte. -/
structure InSector (s : SectorLoop) : Prop where
  num_lt : s.sector_num.toNat < 256
  off_lt : s.sector_off.toNat < 4096
  WriteAddr : s.WriteAddr.toNat = s.sector_num.toNat * 4096 + s.sector_off.toNat
  main_le : s.sector_off.toNat + s.secre_main.toNat ≤ 4096

/-- What a way through the sector has to leave. -/
def Burnt (d : Nat → UInt8) (s : SectorLoop) (r : Nor × Int) : Prop :=
  r.1.cell = laid s.f.cell s.WriteAddr.toNat s.secre_main.toNat d ∧ InPages s.f r.1 ∧ r.2 = 0

theorem InSector.base (h : InSector s) :
    (s.sector_num.toUInt32 * 4096).toNat = s.sector_num.toNat * 4096 := by
  have hlt := h.num_lt
  rw [UInt32.toNat_mul]
  exact Nat.mod_eq_of_lt (by show s.sector_num.toNat * 4096 < 2 ^ 32; omega)

/-- **The range is erased: its bytes are written.** -/
theorem burnSector_fast (h : InSector s) (hfuel : 4096 < fuel)
    (hff : ∀ j, j < s.secre_main.toNat → s.f.cell (s.WriteAddr.toNat + j) = 0xff) :
    ∃ r, qSpiWriteAny fuel s.WriteAddr d s.secre_main s.f = .ok r ∧ Burnt d s r := by
  have hlt := h.num_lt
  have hoff := h.off_lt
  have hw := h.WriteAddr
  have hmain := h.main_le
  have hspec : ∃ r, qSpiWriteAny fuel s.WriteAddr d s.secre_main s.f = .ok r ∧
      Wrote s.f s.WriteAddr.toNat s.secre_main.toNat d r := qSpiWriteAny_spec (by omega) (by omega)
  obtain ⟨r, hr, hcell, hlog, hcode⟩ := hspec
  refine ⟨r, hr, ?_, hlog, hcode⟩
  rw [hcell]
  refine anded_erased fun k h1 h2 => ?_
  have hk := hff (k - s.WriteAddr.toNat) (by omega)
  rwa [Nat.add_sub_cancel' h1] at hk

/-- **It is not: the sector is erased, and written back with the bytes in it.** -/
theorem burnSector_slow (h : InSector s) (hfuel : 4096 < fuel) {buf : Nat → UInt8}
    (hbuf : ∀ j, j < 4096 → buf j = s.f.cell (s.sector_num.toNat * 4096 + j)) :
    ∃ r, qSpiWriteAny fuel (s.sector_num.toUInt32 * 4096)
        (laid buf s.sector_off.toNat s.secre_main.toNat d) 4096
        (qSpiFlashEraseSector (s.sector_num.toUInt32 * 4096) s.f) = .ok r ∧ Burnt d s r := by
  have hlt := h.num_lt
  have hoff := h.off_lt
  have hw := h.WriteAddr
  have hmain := h.main_le
  have hbase := h.base
  have h4096 : (4096 : UInt16).toNat = 4096 := rfl
  generalize hb : s.sector_num.toUInt32 * 4096 = base at hbase ⊢
  have hspec : ∃ r, qSpiWriteAny fuel base (laid buf s.sector_off.toNat s.secre_main.toNat d) 4096
      (qSpiFlashEraseSector base s.f) = .ok r ∧ Wrote (qSpiFlashEraseSector base s.f) base.toNat
        (4096 : UInt16).toNat (laid buf s.sector_off.toNat s.secre_main.toNat d) r :=
    qSpiWriteAny_spec (by omega) (by omega)
  obtain ⟨r, hr, hcell, hlog, hcode⟩ := hspec
  have herase : (qSpiFlashEraseSector base s.f).cell =
      laid s.f.cell (s.sector_num.toNat * 4096) 4096 fun _ => 0xff := by
    have hadr : flashAdr base / FLASH_SECTOR_SIZE * FLASH_SECTOR_SIZE = s.sector_num.toNat * 4096 := by
      rw [flashAdr, hbase, FLASH_SECTOR_SIZE, Nat.mod_eq_of_lt (by omega),
        Nat.mul_div_cancel _ (by omega)]
    rw [qSpiFlashEraseSector, Nor.erase, hadr]
    rfl
  have hpages : InPages s.f (qSpiFlashEraseSector base s.f) := by
    refine ⟨[.erase (flashAdr base)], rfl, fun c hc => ?_⟩
    rw [List.mem_singleton.mp hc]
    exact trivial
  refine ⟨r, hr, ?_, hpages.trans hlog, hcode⟩
  rw [hcell, herase, hbase, h4096]
  rw [anded_erased fun k h1 h2 => by rw [laid, if_pos ⟨h1, h2⟩]]
  funext k
  by_cases hin : s.sector_num.toNat * 4096 ≤ k ∧ k < s.sector_num.toNat * 4096 + 4096
  · rw [laid, if_pos hin]
    by_cases hdata : s.WriteAddr.toNat ≤ k ∧ k < s.WriteAddr.toNat + s.secre_main.toNat
    · rw [laid, laid, if_pos hdata, if_pos (by omega)]
      congr 1
      omega
    · rw [laid_outside (by omega), laid_outside (by omega), hbuf _ (by omega)]
      congr 1
      omega
  · rw [laid_outside (by omega), laid_outside (by omega), laid_outside (by omega)]

theorem burnSector_spec (h : InSector s) (hfuel : 4096 < fuel) :
    ∃ buf r, burnSector fuel d s = .ok (buf, r) ∧ Burnt d s r := by
  have hlt := h.num_lt
  have hbase := h.base
  have hw := h.WriteAddr
  have hmain := h.main_le
  have h4096 : (4096 : UInt32).toNat = 4096 := rfl
  have hread : qSpiFlashRead fuel (s.sector_num.toUInt32 * 4096) s.flash_buf 4096 s.f = _ :=
    qSpiFlashRead_spec (by omega) (by omega)
  rw [burnSector, hread, Fueled.ok_bind, h4096, hbase]
  have hbuf : ∀ j, j < 4096 → laid s.flash_buf 0 4096
      (fun i => s.f.cell (s.sector_num.toNat * 4096 + i)) j =
        s.f.cell (s.sector_num.toNat * 4096 + j) := by
    intro j hj
    rw [laid, if_pos ⟨by omega, by omega⟩, Nat.sub_zero]
  generalize laid s.flash_buf 0 4096 _ = buf at hbuf ⊢
  by_cases hscan : scanErased buf s.sector_off.toNat s.secre_main.toNat 0 < s.secre_main.toNat
  · rw [if_pos hscan, fillBuf_eq]
    obtain ⟨r, hr, hburnt⟩ := burnSector_slow (d := d) h hfuel hbuf
    refine ⟨laid buf s.sector_off.toNat s.secre_main.toNat d, r, ?_, hburnt⟩
    simp only [hr, Fueled.ok_bind]
  · rw [if_neg hscan]
    have hff : ∀ j, j < s.secre_main.toNat → s.f.cell (s.WriteAddr.toNat + j) = 0xff := by
      intro j hj
      have hj' := scanErased_end buf s.sector_off.toNat s.secre_main.toNat 0 (by omega) j
        (Nat.zero_le j) (by omega)
      rw [hbuf _ (by omega)] at hj'
      rw [hw, Nat.add_assoc]
      exact hj'
    obtain ⟨r, hr, hburnt⟩ := burnSector_fast (d := d) h hfuel hff
    exact ⟨_, r, by rw [hr, Fueled.ok_bind], hburnt⟩

/-! ### All sectors -/

/-- The loop of `WriteFlash` when `s.off` bytes of the data have been written. -/
structure Writing (f : Nor) (addr n : Nat) (d : Nat → UInt8) (s : SectorLoop) : Prop where
  place : InSector s
  WriteAddr : s.WriteAddr.toNat = addr + s.off
  DataLen : s.DataLen.toNat = n - s.off
  off_le : s.off ≤ n
  main_le : s.secre_main.toNat ≤ s.DataLen.toNat
  main_pos : 0 < s.DataLen.toNat → 0 < s.secre_main.toNat
  /-- The sector is filled when data is left for the next one. -/
  full : s.secre_main.toNat < s.DataLen.toNat →
    s.sector_off.toNat + s.secre_main.toNat = 4096
  cell : s.f.cell = laid f.cell addr s.off d
  log : InPages f s.f

/-- What `WriteFlash` leaves. -/
def Done (f : Nor) (addr n : Nat) (d : Nat → UInt8) (f' : Nor) : Prop :=
  f'.cell = laid f.cell addr n d ∧ InPages f f'

theorem sectorRound_step {f : Nor} {addr n : Nat} (hin : addr + n ≤ 2 ^ 20) (hfuel : 4096 < fuel)
    (h : Writing f addr n d s) :
    (∃ f', sectorRound fuel d s = .ok (.inr f') ∧ Done f addr n d f') ∨
      ∃ s', sectorRound fuel d s = .ok (.inl s') ∧ Writing f addr n d s' ∧ s.off < s'.off := by
  have hw := h.WriteAddr
  have hd := h.DataLen
  have hle := h.off_le
  have hmain := h.main_le
  have hpos := h.main_pos
  have hfull := h.full
  have hplace := h.place.WriteAddr
  have hnum := h.place.num_lt
  obtain ⟨buf, ⟨f', code⟩, hr, hcell, hlog, hcode⟩ :=
    burnSector_spec (d := fun i => d (s.off + i)) h.place hfuel
  have hcell' : f'.cell = laid f.cell addr (s.off + s.secre_main.toNat) d := by
    rw [← laid_laid, ← h.cell, ← hw]
    exact hcell
  have hcode : code = 0 := hcode
  have hword : s.secre_main.toUInt32.toNat = s.secre_main.toNat := toNat_toUInt32_16 _
  rw [sectorRound, hr, Fueled.ok_bind]
  simp only
  rw [if_neg fun hc => hc hcode]
  by_cases hlast : s.DataLen = s.secre_main.toUInt32
  · have heq : s.DataLen.toNat = s.secre_main.toNat := by rw [hlast, hword]
    rw [if_pos hlast]
    refine .inl ⟨f', rfl, ?_, h.log.trans hlog⟩
    rw [hcell']
    congr 1
    omega
  · have hne : s.DataLen.toNat ≠ s.secre_main.toNat :=
      fun hc => hlast (UInt32.toNat_inj.mp (hc.trans hword.symm))
    have hfull := hfull (by omega)
    have hsub : (s.DataLen - s.secre_main.toUInt32).toNat =
        s.DataLen.toNat - s.secre_main.toNat := by
      rw [toNat_sub_of_le (by omega), hword]
    have hadd : (s.WriteAddr + s.secre_main.toUInt32).toNat =
        s.WriteAddr.toNat + s.secre_main.toNat := by
      rw [toNat_add_of_lt (by omega), hword]
    have hone : (1 : UInt8).toNat = 1 := rfl
    have hsucc : (s.sector_num + 1).toNat = s.sector_num.toNat + 1 := by
      rw [UInt8.toNat_add, hone]
      exact Nat.mod_eq_of_lt (by omega)
    -- the next part: a whole sector, or all that is left
    have hnext : (if s.DataLen - s.secre_main.toUInt32 > 4096 then (4096 : UInt16)
        else (s.DataLen - s.secre_main.toUInt32).toUInt16).toNat =
          min 4096 (s.DataLen.toNat - s.secre_main.toNat) := by
      have h4096 : (4096 : UInt32).toNat = 4096 := rfl
      have h4096' : (4096 : UInt16).toNat = 4096 := rfl
      by_cases hmore : s.DataLen - s.secre_main.toUInt32 > 4096
      · have hgt : (4096 : UInt32).toNat < (s.DataLen - s.secre_main.toUInt32).toNat :=
          UInt32.lt_iff_toNat_lt.mp hmore
        rw [if_pos hmore]
        omega
      · have hgt : ¬ (4096 : UInt32).toNat < (s.DataLen - s.secre_main.toUInt32).toNat :=
          fun hc => hmore (UInt32.lt_iff_toNat_lt.mpr hc)
        rw [if_neg hmore, UInt32.toNat_toUInt16, Nat.mod_eq_of_lt (by omega)]
        omega
    rw [if_neg hlast]
    generalize (if s.DataLen - s.secre_main.toUInt32 > 4096 then (4096 : UInt16)
      else (s.DataLen - s.secre_main.toUInt32).toUInt16) = next at hnext ⊢
    refine .inr ⟨_, rfl, ?_, by show s.off < s.off + s.secre_main.toNat; omega⟩
    refine ⟨⟨?_, ?_, ?_, ?_⟩, ?_, ?_, ?_, ?_, ?_, ?_, hcell', h.log.trans hlog⟩
    · show (s.sector_num + 1).toNat < 256
      omega
    · show (0 : UInt16).toNat < 4096
      decide
    · show (s.WriteAddr + s.secre_main.toUInt32).toNat = (s.sector_num + 1).toNat * 4096 + 0
      omega
    · show 0 + next.toNat ≤ 4096
      omega
    · show (s.WriteAddr + s.secre_main.toUInt32).toNat = addr + (s.off + s.secre_main.toNat)
      omega
    · show (s.DataLen - s.secre_main.toUInt32).toNat = n - (s.off + s.secre_main.toNat)
      omega
    · show s.off + s.secre_main.toNat ≤ n
      omega
    · show next.toNat ≤ (s.DataLen - s.secre_main.toUInt32).toNat
      omega
    · intro _
      show 0 < next.toNat
      omega
    · intro hlt
      have hlt : next.toNat < (s.DataLen - s.secre_main.toUInt32).toNat := hlt
      show 0 + next.toNat = 4096
      omega

/-- **`WriteFlash` lays the data over the flash.** -/
theorem writeFlash_spec {f : Nor} {DataLen BurnStartPos : UInt32} {flash_buf : Nat → UInt8}
    (haddr : BurnStartPos.toNat < 2 ^ 20) (hin : BurnStartPos.toNat + DataLen.toNat ≤ 2 ^ 20)
    (hfuel : 2 ^ 20 < fuel) :
    ∃ f', writeFlash fuel d DataLen BurnStartPos flash_buf f = .ok f' ∧
      Done f BurnStartPos.toNat DataLen.toNat d f' := by
  have h4096 : (4096 : UInt32).toNat = 4096 := rfl
  have h4096' : (4096 : UInt16).toNat = 4096 := rfl
  have hnum : (BurnStartPos / 4096).toUInt8.toNat = BurnStartPos.toNat / 4096 := by
    rw [UInt32.toNat_toUInt8, UInt32.toNat_div, h4096, Nat.mod_eq_of_lt (by omega)]
  have hoff : (BurnStartPos % 4096).toUInt16.toNat = BurnStartPos.toNat % 4096 := by
    rw [UInt32.toNat_toUInt16, UInt32.toNat_mod, h4096, Nat.mod_eq_of_lt (by omega)]
  rw [writeFlash]
  generalize (BurnStartPos / 4096).toUInt8 = sector_num at hnum ⊢
  generalize (BurnStartPos % 4096).toUInt16 = sector_off at hoff ⊢
  have hrest : (4096 - sector_off).toNat = 4096 - sector_off.toNat := by
    rw [UInt16.toNat_sub_of_le _ _ (UInt16.le_iff_toNat_le.mpr (by omega)), h4096']
  have hword : (4096 - sector_off).toUInt32.toNat = (4096 - sector_off).toNat := toNat_toUInt32_16 _
  have hfirst : (if DataLen ≤ (4096 - sector_off).toUInt32 then DataLen.toUInt16
      else 4096 - sector_off).toNat = min DataLen.toNat (4096 - sector_off.toNat) := by
    by_cases hle : DataLen ≤ (4096 - sector_off).toUInt32
    · have hn := UInt32.le_iff_toNat_le.mp hle
      rw [if_pos hle, UInt32.toNat_toUInt16, Nat.mod_eq_of_lt (by omega)]
      omega
    · have hn : ¬ DataLen.toNat ≤ (4096 - sector_off).toUInt32.toNat :=
        fun hc => hle (UInt32.le_iff_toNat_le.mpr hc)
      rw [if_neg hle]
      omega
  generalize (if DataLen ≤ (4096 - sector_off).toUInt32 then DataLen.toUInt16
    else 4096 - sector_off) = first at hfirst ⊢
  have hinit : Writing f BurnStartPos.toNat DataLen.toNat d
      ⟨sector_num, sector_off, first, BurnStartPos, 0, DataLen, flash_buf, f⟩ := by
    refine ⟨⟨?_, ?_, ?_, ?_⟩, rfl, rfl, Nat.zero_le _, ?_, fun hp => ?_, fun hlt => ?_,
      laid_zero.symm, .refl f⟩
    · show sector_num.toNat < 256
      omega
    · show sector_off.toNat < 4096
      omega
    · show BurnStartPos.toNat = sector_num.toNat * 4096 + sector_off.toNat
      omega
    · show sector_off.toNat + first.toNat ≤ 4096
      omega
    · show first.toNat ≤ DataLen.toNat
      omega
    · have hp : 0 < DataLen.toNat := hp
      show 0 < first.toNat
      omega
    · have hlt : first.toNat < DataLen.toNat := hlt
      show sector_off.toNat + first.toNat = 4096
      omega
  refine whileLoop_total (m := fun s => DataLen.toNat - s.off) (fun s hs => ?_) fuel _ hinit
    (by show DataLen.toNat - 0 < fuel; omega)
  have hfuel' : 4096 < fuel := by omega
  rcases sectorRound_step hin hfuel' hs with hr | ⟨s', hb, hs', hlt⟩
  · exact .inl hr
  · exact .inr ⟨s', hb, hs', by have := hs'.off_le; omega⟩

/-- **What was written is read back, and nothing else has changed.**  For a range in the first
megabyte, any data and any content of the flash: the loops end, `ReadFlash` gives the data, the
cells outside are as they were, and no page command has run over the end of its page. -/
theorem flash_write_read (f : Nor) (pData flash_buf pBuf : Nat → UInt8)
    {DataLen BurnStartPos : UInt32} (haddr : BurnStartPos.toNat < 2 ^ 20)
    (hin : BurnStartPos.toNat + DataLen.toNat ≤ 2 ^ 20) (hfuel : 2 ^ 20 < fuel) :
    ∃ f', writeFlash fuel pData DataLen BurnStartPos flash_buf f = .ok f' ∧
      (∃ buf, readFlash fuel pBuf DataLen BurnStartPos f' = .ok buf ∧
        ∀ i, i < DataLen.toNat → buf i = pData i) ∧
      (∀ k, k < BurnStartPos.toNat ∨ BurnStartPos.toNat + DataLen.toNat ≤ k →
        f'.cell k = f.cell k) ∧
      ∃ cs, f'.log = f.log ++ cs ∧ ∀ c ∈ cs, c.InPage FLASH_PAGE_SIZE := by
  obtain ⟨f', hw, hcell, hlog⟩ := writeFlash_spec (d := pData) (f := f) haddr hin hfuel
  have hread : readFlash fuel pBuf DataLen BurnStartPos f' = _ :=
    qSpiFlashRead_spec (by omega) (by omega)
  refine ⟨f', hw, ⟨_, hread, fun i hi => ?_⟩, fun k hk => ?_, hlog⟩
  · rw [laid, if_pos ⟨by omega, by omega⟩, Nat.sub_zero, hcell, laid_inside hi]
  · rw [hcell, laid_outside hk]

/-- Data that ends in the next sector, on a flash with no erased byte. -/
theorem flash_write_read_across : ∃ f', writeFlash (2 ^ 21) (fun i => UInt8.ofNat i) 512 0x63f00
      (fun _ => 0) ⟨fun _ => 7, []⟩ = .ok f' ∧
    (∃ buf, readFlash (2 ^ 21) (fun _ => 0) 512 0x63f00 f' = .ok buf ∧ buf 511 = 255) ∧
    f'.cell 0x63eff = 7 := by
  have haddr : (0x63f00 : UInt32).toNat < 2 ^ 20 := by decide
  have hin : (0x63f00 : UInt32).toNat + (512 : UInt32).toNat ≤ 2 ^ 20 := by decide
  have hfuel : 2 ^ 20 < 2 ^ 21 := by decide
  obtain ⟨f', hw, ⟨buf, hr, hdata⟩, hout, -⟩ := flash_write_read ⟨fun _ => 7, []⟩
    (fun i => UInt8.ofNat i) (fun _ => 0) (fun _ => 0) haddr hin hfuel
  exact ⟨f', hw, ⟨buf, hr, hdata 511 (by decide)⟩, hout 0x63eff (.inl (by decide))⟩

end Nl6621.Flash
