import Nl6621.Flash.QSpi

/-!
# Writing a sector with verification

`QSpiWriteOneSector` erases a sector and writes its sixteen pages, each up to ten times until it
reads back as the data.  What a page write leaves in its page is up to the device here: `outcomes i
k` are the bytes of page `i` behind attempt `k`.

The counter is tested and decremented in one: it is zero when the tenth attempt was the one that
verified, and has wrapped around when none did.  The test behind the loop takes the zero for the
failure.  `pageLoop_spec` says what comes of this for a whole sector, and `truthful_iff` for which
outcomes the result is still right.
-/

namespace Nl6621.Flash

open Lib

/-! ### The functions of the source -/

/-- A page write, by which the page comes to be `page`. -/
def attemptPage (Adr : UInt32) (page : Nat → UInt8) (f : Nor) : Nor :=
  ⟨laid f.cell (flashAdr Adr) FLASH_PAGE_SIZE page,
    f.log ++ [.program (flashAdr Adr) FLASH_PAGE_SIZE]⟩

structure Pages where
  f : Nor
  PageBuf : Nat → UInt8

/-- `while (j--)`; the counter and the state when the loop is left. -/
def retryPage (fuel : Nat) (outcome : Nat → Nat → UInt8) (WriteAddr : UInt32) (pBuf : Nat → UInt8) :
    Nat → Pages → Fueled (UInt32 × Pages)
  | 0, s => .ok (0 - 1, s)
  | j + 1, s => do
    let f := attemptPage WriteAddr (outcome (9 - j)) s.f
    let PageBuf ← qSpiFlashRead fuel WriteAddr s.PageBuf 256 f
    if ∀ t < FLASH_PAGE_SIZE, PageBuf t = pBuf t then .ok (UInt32.ofNat j, ⟨f, PageBuf⟩)
    else retryPage fuel outcome WriteAddr pBuf j ⟨f, PageBuf⟩

/-- The last `n` pages, from page `i` on; `off` is how far `pBuf` has moved. -/
def pageLoop (fuel : Nat) (outcomes : Nat → Nat → Nat → UInt8) (pBuf : Nat → UInt8) :
    Nat → Nat → UInt32 → Nat → Pages → Fueled (Nor × Int)
  | 0, _, _, _, s => .ok (s.f, 0)
  | n + 1, i, WriteAddr, off, s => do
    let (j, s) ← retryPage fuel (outcomes i) WriteAddr (fun t => pBuf (off + t)) 10 s
    if j = 0 then .ok (s.f, -1)
    else pageLoop fuel outcomes pBuf n (i + 1) (WriteAddr + 256) (off + FLASH_PAGE_SIZE) s

def qSpiWriteOneSector (fuel : Nat) (outcomes : Nat → Nat → Nat → UInt8) (SectorAddr : UInt32)
    (pBuf PageBuf : Nat → UInt8) (f : Nor) : Fueled (Nor × Int) :=
  let PageCnt := FLASH_SECTOR_SIZE / FLASH_PAGE_SIZE
  pageLoop fuel outcomes pBuf PageCnt 0 SectorAddr 0 ⟨qSpiFlashEraseSector SectorAddr f, PageBuf⟩

/-! ### The attempts at a page -/

section

variable {fuel : Nat} {outcome : Nat → Nat → UInt8} {WriteAddr : UInt32} {pBuf : Nat → UInt8}

/-- The attempt leaves the data in the page. -/
def Verifies (outcome : Nat → Nat → UInt8) (pBuf : Nat → UInt8) (k : Nat) : Prop :=
  ∀ t < FLASH_PAGE_SIZE, outcome k t = pBuf t

instance (outcome : Nat → Nat → UInt8) (pBuf : Nat → UInt8) (k : Nat) :
    Decidable (Verifies outcome pBuf k) :=
  inferInstanceAs (Decidable (∀ t < FLASH_PAGE_SIZE, outcome k t = pBuf t))

/-- Only the cells of the page differ. -/
def PageOnly (a : Nat) (f f' : Nor) : Prop :=
  ∀ x, x < a ∨ a + FLASH_PAGE_SIZE ≤ x → f'.cell x = f.cell x

/-- **One attempt**, with what is read back. -/
theorem retryPage_succ (hin : WriteAddr.toNat + FLASH_PAGE_SIZE ≤ 2 ^ 24) (hfuel : 256 < fuel)
    (j : Nat) (s : Pages) :
    ∃ s' : Pages, PageOnly WriteAddr.toNat s.f s'.f ∧
      (∀ t < FLASH_PAGE_SIZE, s'.f.cell (WriteAddr.toNat + t) = outcome (9 - j) t) ∧
      retryPage fuel outcome WriteAddr pBuf (j + 1) s =
        if Verifies outcome pBuf (9 - j) then .ok (UInt32.ofNat j, s')
        else retryPage fuel outcome WriteAddr pBuf j s' := by
  have hpage : FLASH_PAGE_SIZE = 256 := rfl
  have hadr : flashAdr WriteAddr = WriteAddr.toNat := Nat.mod_eq_of_lt (by omega)
  have hcell : (attemptPage WriteAddr (outcome (9 - j)) s.f).cell =
      laid s.f.cell WriteAddr.toNat FLASH_PAGE_SIZE (outcome (9 - j)) := by
    rw [attemptPage, hadr]
  have hread : ∃ PageBuf, qSpiFlashRead fuel WriteAddr s.PageBuf 256
      (attemptPage WriteAddr (outcome (9 - j)) s.f) = .ok PageBuf ∧
      ∀ t < FLASH_PAGE_SIZE, PageBuf t = outcome (9 - j) t := by
    refine ⟨_, @qSpiFlashRead_spec _ fuel WriteAddr 256 s.PageBuf hin hfuel, fun t ht => ?_⟩
    have hlaid : laid s.PageBuf 0 (256 : UInt32).toNat (fun i =>
        (attemptPage WriteAddr (outcome (9 - j)) s.f).cell (WriteAddr.toNat + i)) (0 + t) =
          (attemptPage WriteAddr (outcome (9 - j)) s.f).cell (WriteAddr.toNat + t) :=
      laid_inside ht
    rw [Nat.zero_add] at hlaid
    rw [hlaid, hcell, laid_inside ht]
  obtain ⟨PageBuf, hread, hbuf⟩ := hread
  refine ⟨⟨attemptPage WriteAddr (outcome (9 - j)) s.f, PageBuf⟩, fun x hx => ?_,
    fun t ht => ?_, ?_⟩
  · simp only
    rw [hcell, laid_outside hx]
  · simp only
    rw [hcell, laid_inside ht]
  · have hsame : (∀ t < FLASH_PAGE_SIZE, PageBuf t = pBuf t) ↔
        Verifies outcome pBuf (9 - j) := by
      refine forall_congr' fun t => imp_congr_right fun ht => ?_
      rw [hbuf t ht]
    rw [retryPage, hread, Fueled.ok_bind]
    by_cases hv : Verifies outcome pBuf (9 - j)
    · rw [if_pos hv, if_pos (hsame.mpr hv)]
    · rw [if_neg hv, if_neg (mt hsame.mp hv)]

/-- **All attempts**: the counter says at which of them the page has verified, or has wrapped
around. -/
theorem retryPage_spec (hin : WriteAddr.toNat + FLASH_PAGE_SIZE ≤ 2 ^ 24) (hfuel : 256 < fuel) :
    ∀ (j : Nat) (s : Pages), ∃ counter s',
      retryPage fuel outcome WriteAddr pBuf j s = .ok (counter, s') ∧
      PageOnly WriteAddr.toNat s.f s'.f ∧
      ((∃ k < j, counter = UInt32.ofNat k ∧ Verifies outcome pBuf (9 - k) ∧
          (∀ m, k < m → m < j → ¬Verifies outcome pBuf (9 - m)) ∧
          ∀ t < FLASH_PAGE_SIZE, s'.f.cell (WriteAddr.toNat + t) = pBuf t) ∨
        ((∀ m < j, ¬Verifies outcome pBuf (9 - m)) ∧ counter = 0 - 1)) := by
  intro j
  induction j with
  | zero =>
    intro s
    exact ⟨_, s, rfl, fun x _ => rfl, Or.inr ⟨fun m hm => absurd hm (Nat.not_lt_zero m), rfl⟩⟩
  | succ j ih =>
    intro s
    obtain ⟨s₁, honly, hcell, heq⟩ := retryPage_succ hin hfuel j s
    rw [heq]
    by_cases hv : Verifies outcome pBuf (9 - j)
    · rw [if_pos hv]
      refine ⟨_, s₁, rfl, honly, Or.inl ⟨j, Nat.lt_succ_self j, rfl, hv, ?_, fun t ht => ?_⟩⟩
      · intro m h1 h2
        omega
      · rw [hcell t ht, hv t ht]
    · rw [if_neg hv]
      obtain ⟨counter, s', hret, honly', hcase⟩ := ih s₁
      refine ⟨counter, s', hret, fun x hx => (honly' x hx).trans (honly x hx), ?_⟩
      have hlast : ∀ m, ¬m < j → m < j + 1 → ¬Verifies outcome pBuf (9 - m) := by
        intro m h1 h2
        have hmj : m = j := by omega
        rwa [hmj]
      rcases hcase with ⟨k, hk, hc, hvk, hbefore, hdata⟩ | ⟨hnone, hc⟩
      · refine Or.inl ⟨k, Nat.lt_succ_of_lt hk, hc, hvk, fun m h1 h2 => ?_, hdata⟩
        by_cases hm : m < j
        · exact hbefore m h1 hm
        · exact hlast m hm h2
      · refine Or.inr ⟨fun m h2 => ?_, hc⟩
        by_cases hm : m < j
        · exact hnone m hm
        · exact hlast m hm h2

/-- The page verifies at the tenth attempt and not before. -/
def Late (outcome : Nat → Nat → UInt8) (pBuf : Nat → UInt8) : Prop :=
  Verifies outcome pBuf 9 ∧ ∀ k < 9, ¬Verifies outcome pBuf k

/-- **What becomes of a page.**  The counter is zero if the page verifies late; otherwise the data
is in the page if it verifies at all. -/
theorem retryPage_ten (hin : WriteAddr.toNat + FLASH_PAGE_SIZE ≤ 2 ^ 24) (hfuel : 256 < fuel)
    (s : Pages) : ∃ counter s', retryPage fuel outcome WriteAddr pBuf 10 s = .ok (counter, s') ∧
      PageOnly WriteAddr.toNat s.f s'.f ∧ (counter = 0 ↔ Late outcome pBuf) ∧
      ((∃ k < 10, Verifies outcome pBuf k) →
        ∀ t < FLASH_PAGE_SIZE, s'.f.cell (WriteAddr.toNat + t) = pBuf t) := by
  obtain ⟨counter, s', hret, honly, hcase⟩ := retryPage_spec hin hfuel 10 s
  refine ⟨counter, s', hret, honly, ?_⟩
  rcases hcase with ⟨k, hk, rfl, hv, hbefore, hdata⟩ | ⟨hnone, rfl⟩
  · refine ⟨?_, fun _ => hdata⟩
    have hzero : UInt32.ofNat k = 0 ↔ k = 0 := by
      rw [← UInt32.toNat_inj, UInt32.toNat_ofNat', Nat.mod_eq_of_lt (by omega)]
      exact Iff.rfl
    rw [hzero]
    constructor
    · rintro rfl
      refine ⟨hv, fun k hk => ?_⟩
      have hlt := hbefore (9 - k) (by omega) (by omega)
      rwa [Nat.sub_sub_self (by omega)] at hlt
    · intro hlate
      by_contra hk0
      exact hlate.2 (9 - k) (by omega) hv
  · have hall : ∀ k < 10, ¬Verifies outcome pBuf k := by
      intro k hk
      have hno := hnone (9 - k) (by omega)
      rwa [Nat.sub_sub_self (by omega)] at hno
    refine ⟨iff_of_false (by decide) fun h => hall 9 (by decide) h.1, ?_⟩
    rintro ⟨k, hk, hv⟩
    exact absurd hv (hall k hk)

end

/-! ### The pages of a sector -/

section

variable {fuel : Nat} {outcomes : Nat → Nat → Nat → UInt8} {pBuf : Nat → UInt8}

/-- The data of page `i`. -/
def pageData (pBuf : Nat → UInt8) (i : Nat) : Nat → UInt8 := fun t => pBuf (i * FLASH_PAGE_SIZE + t)

/-- Some attempt at page `i` verifies. -/
def Written (outcomes : Nat → Nat → Nat → UInt8) (pBuf : Nat → UInt8) (i : Nat) : Prop :=
  ∃ k < 10, Verifies (outcomes i) (pageData pBuf i) k

/-- **The last `n` pages.**  They are given up at the first page that verifies late; otherwise all
is well with those that verify. -/
theorem pageLoop_spec {base : Nat} (hfuel : 256 < fuel) :
    ∀ (n i : Nat) (WriteAddr : UInt32) (s : Pages),
      WriteAddr.toNat = base + i * FLASH_PAGE_SIZE →
      base + (i + n) * FLASH_PAGE_SIZE ≤ 2 ^ 24 →
      ∃ f' ret, pageLoop fuel outcomes pBuf n i WriteAddr (i * FLASH_PAGE_SIZE) s = .ok (f', ret) ∧
        (ret = 0 ∨ ret = -1) ∧
        (ret = -1 ↔ ∃ m, i ≤ m ∧ m < i + n ∧ Late (outcomes m) (pageData pBuf m)) ∧
        (∀ x < base + i * FLASH_PAGE_SIZE, f'.cell x = s.f.cell x) ∧
        (ret = 0 → ∀ m, i ≤ m → m < i + n → Written outcomes pBuf m →
          ∀ t < FLASH_PAGE_SIZE, f'.cell (base + m * FLASH_PAGE_SIZE + t) = pageData pBuf m t) := by
  intro n
  induction n with
  | zero =>
    intro i WriteAddr s _ _
    refine ⟨s.f, 0, rfl, Or.inl rfl, iff_of_false (by decide) ?_, fun x _ => rfl,
      fun _ m h1 h2 => ?_⟩
    · rintro ⟨m, h1, h2, -⟩
      omega
    · omega
  | succ n ih =>
    intro i WriteAddr s haddr hin
    have hpage : FLASH_PAGE_SIZE = 256 := rfl
    have haddr256 := haddr
    rw [hpage] at haddr256
    have hin256 := hin
    rw [hpage] at hin256
    obtain ⟨counter, s₁, hret, honly, hzero, hdata⟩ := @retryPage_ten fuel (outcomes i) WriteAddr
      (pageData pBuf i) (by rw [hpage]; omega) hfuel s
    rw [PageOnly, haddr] at honly
    rw [haddr] at hdata
    have hdef : (fun t => pBuf (i * FLASH_PAGE_SIZE + t)) = pageData pBuf i := rfl
    rw [pageLoop, hdef, hret, Fueled.ok_bind]
    by_cases hlate : counter = 0
    · simp only
      rw [if_pos hlate]
      refine ⟨s₁.f, -1, rfl, Or.inr rfl,
        iff_of_true rfl ⟨i, Nat.le_refl i, by omega, hzero.mp hlate⟩,
        fun x hx => honly x (Or.inl hx), fun h => absurd h (by decide)⟩
    · have hnext : (WriteAddr + 256).toNat = base + (i + 1) * FLASH_PAGE_SIZE := by
        have h256 : (256 : UInt32).toNat = 256 := rfl
        rw [toNat_add_of_lt (by omega), haddr256, h256, hpage]
        omega
      have hoff : i * FLASH_PAGE_SIZE + FLASH_PAGE_SIZE = (i + 1) * FLASH_PAGE_SIZE := by
        rw [Nat.succ_mul]
      have hsum : i + 1 + n = i + (n + 1) := by omega
      obtain ⟨f', ret, hrest, hcases, hfail, hkept, hall⟩ := ih (i + 1) (WriteAddr + 256) s₁ hnext
        (hsum ▸ hin)
      simp only
      rw [if_neg hlate, hoff]
      refine ⟨f', ret, hrest, hcases, ?_, fun x hx => ?_, fun h0 m h1 h2 hw t ht => ?_⟩
      · rw [hfail]
        constructor
        · rintro ⟨m, h1, h2, hm⟩
          exact ⟨m, by omega, by omega, hm⟩
        · rintro ⟨m, h1, h2, hm⟩
          have hne : m ≠ i := by
            rintro rfl
            exact hlate (hzero.mpr hm)
          exact ⟨m, by omega, by omega, hm⟩
      · have hx' : x < base + (i + 1) * FLASH_PAGE_SIZE := by
          rw [← hoff]
          omega
        rw [hkept x hx', honly x (Or.inl hx)]
      · by_cases hm : m = i
        · subst hm
          have hx : base + m * FLASH_PAGE_SIZE + t < base + (m + 1) * FLASH_PAGE_SIZE := by
            rw [← hoff]
            omega
          rw [hkept _ hx]
          exact hdata hw t ht
        · exact hall h0 m (by omega) (by omega) hw t ht

end

/-! ### When the result is right -/

/-- `QSpiWriteOneSector` returns 0 if every page verifies at one of ten attempts, and -1 otherwise;
with 0 the whole sector reads back as the data. -/
def Truthful (fuel : Nat) (outcomes : Nat → Nat → Nat → UInt8) (SectorAddr : UInt32)
    (pBuf PageBuf : Nat → UInt8) (f : Nor) : Prop :=
  ∃ f' ret, qSpiWriteOneSector fuel outcomes SectorAddr pBuf PageBuf f = .ok (f', ret) ∧
    (ret = 0 ∨ ret = -1) ∧
    (ret = 0 ↔ ∀ i < 16, Written outcomes pBuf i) ∧
    (ret = 0 → ∀ t < FLASH_SECTOR_SIZE, f'.cell (SectorAddr.toNat + t) = pBuf t)

/-- **When the result is right**: if there is a page that verifies at its tenth attempt and not
before exactly if there is one that does not verify at all. -/
theorem truthful_iff {fuel : Nat} {outcomes : Nat → Nat → Nat → UInt8} {SectorAddr : UInt32}
    (pBuf PageBuf : Nat → UInt8) (f : Nor) (hfuel : 256 < fuel)
    (hin : SectorAddr.toNat + FLASH_SECTOR_SIZE ≤ 2 ^ 24) :
    Truthful fuel outcomes SectorAddr pBuf PageBuf f ↔
      ((∃ i < 16, Late (outcomes i) (pageData pBuf i)) ↔ ∃ i < 16, ¬Written outcomes pBuf i) := by
  obtain ⟨f', ret, hret, hcases, hfail, -, hdata⟩ := @pageLoop_spec fuel outcomes pBuf
    SectorAddr.toNat hfuel 16 0 SectorAddr ⟨qSpiFlashEraseSector SectorAddr f, PageBuf⟩ rfl hin
  have hrun : qSpiWriteOneSector fuel outcomes SectorAddr pBuf PageBuf f = .ok (f', ret) := hret
  have hfail' : ret = -1 ↔ ∃ i < 16, Late (outcomes i) (pageData pBuf i) := by
    rw [hfail]
    exact ⟨fun ⟨m, _, h, hm⟩ => ⟨m, by omega, hm⟩, fun ⟨m, h, hm⟩ => ⟨m, by omega, by omega, hm⟩⟩
  have hzero : ret = 0 ↔ ¬∃ i < 16, Late (outcomes i) (pageData pBuf i) := by
    rw [← hfail']
    rcases hcases with rfl | rfl
    · exact iff_of_true rfl (by decide)
    · exact iff_of_false (by decide) fun h => h rfl
  have hall : (∀ i < 16, Written outcomes pBuf i) ↔ ¬∃ i < 16, ¬Written outcomes pBuf i := by
    constructor
    · rintro h ⟨i, hi, hno⟩
      exact hno (h i hi)
    · intro h i hi
      by_contra hno
      exact h ⟨i, hi, hno⟩
  constructor
  · rintro ⟨f'', ret', hret', -, hright, -⟩
    rw [hrun] at hret'
    cases hret'
    rw [hzero, hall] at hright
    exact not_iff_not.mp hright
  · intro h
    have hright : ret = 0 ↔ ∀ i < 16, Written outcomes pBuf i := by
      rw [hzero, hall, h]
    refine ⟨f', ret, hrun, hcases, hright, fun h0 t ht => ?_⟩
    -- the page of the byte
    have hpage : FLASH_PAGE_SIZE = 256 := rfl
    have hsector : FLASH_SECTOR_SIZE = 4096 := rfl
    have hbyte := hdata h0 (t / 256) (Nat.zero_le _) (by omega) (hright.mp h0 _ (by omega))
      (t % 256) (Nat.mod_lt _ (by decide))
    have hplace : t / 256 * 256 + t % 256 = t := Nat.div_add_mod' t 256
    rw [pageData, hpage, Nat.add_assoc, hplace] at hbyte
    exact hbyte

/-- A device that takes the data. -/
theorem truthful_iff_taken :
    Truthful 257 (fun _ _ _ => 0) 0 (fun _ => 0) (fun _ => 0) ⟨fun _ => 0xff, []⟩ := by
  refine (truthful_iff _ _ _ (by decide) (by decide)).mpr (iff_of_false ?_ ?_)
  · rintro ⟨i, -, h⟩
    exact h.2 0 (by decide) fun t _ => rfl
  · rintro ⟨i, -, h⟩
    exact h ⟨0, by decide, fun t _ => rfl⟩

/-- A device that never takes the data, and a return value of 0. -/
theorem failure_unnoticed :
    ¬Truthful 257 (fun _ _ _ => 0xff) 0 (fun _ => 0) (fun _ => 0) ⟨fun _ => 0xff, []⟩ := by
  have hnever : ∀ i k, ¬Verifies (fun _ _ => (0xff : UInt8)) (pageData (fun _ => 0) i) k := by
    intro i k h
    have hbyte : (0xff : UInt8) = 0 := h 0 (by decide)
    exact absurd hbyte (by decide)
  obtain ⟨f', ret, hret, hcases, hfail, -, -⟩ := @pageLoop_spec 257 (fun _ _ _ => 0xff)
    (fun _ => 0) (0 : UInt32).toNat (by decide) 16 0 0
    ⟨qSpiFlashEraseSector 0 ⟨fun _ => 0xff, []⟩, fun _ => 0⟩ rfl (by decide)
  rintro ⟨f'', ret', hret', -, hright, -⟩
  have hrun : qSpiWriteOneSector 257 (fun _ _ _ => 0xff) 0 (fun _ => 0) (fun _ => 0)
      ⟨fun _ => 0xff, []⟩ = .ok (f', ret) := hret
  rw [hrun] at hret'
  cases hret'
  have hzero : ret = 0 := hcases.resolve_right fun h => by
    obtain ⟨m, -, -, hm⟩ := hfail.mp h
    exact hnever m 9 hm.1
  obtain ⟨k, -, hk⟩ := hright.mp hzero 0 (by decide)
  exact hnever 0 k hk

end Nl6621.Flash
