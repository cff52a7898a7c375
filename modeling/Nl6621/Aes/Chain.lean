import Nl6621.Aes.Fips
import Nl6621.Lib.Chaining

/-!
# Encrypting and decrypting memory

`blockDecrypt_blockEncrypt` is that the two halves of the cipher are inverse to each other, round
by round.  `AES_Encrypt` and `AES_Decrypt` leave the chained text in the memory they are given, in
place or beside it, and touch nothing else (`encryptBlocks_eq`, `decryptBlocks_eq`); so `aes_cbc`
gets back what has been encrypted.
-/

namespace Nl6621.Aes

open Lib Lib.Ram

/-! ### A block -/

section

variable {T s k l : List UInt8} {n i : Nat}

theorem xorBytes_xorBytes (h : l.length = k.length) : xorBytes (xorBytes l k) k = l := by
  apply List.ext_getElem?
  intro i
  rw [xorBytes, xorBytes, List.getElem?_zipWith, List.getElem?_zipWith]
  by_cases hi : i < l.length
  · rw [List.getElem?_eq_getElem hi, List.getElem?_eq_getElem (h ▸ hi)]
    show some (_ ^^^ _ ^^^ _) = _
    rw [UInt8.xor_assoc, UInt8.xor_self, UInt8.xor_zero]
  · rw [List.getElem?_eq_none (Nat.not_lt.mp hi)]

theorem subBytes_subBytes (l : List UInt8) : subBytes true (subBytes false l) = l := by
  rw [subBytes, subBytes, List.map_map]
  refine List.map_id'' ?_ l
  exact forall_byte lookup_InvSBox

theorem ext_getD (hl : l.length = n) (hk : k.length = n)
    (h : ∀ i, i < n → l.getD i 0 = k.getD i 0) : l = k := by
  apply List.ext_getElem?
  intro i
  by_cases hi : i < n
  · have hi' := h i hi
    rw [List.getD_eq_getElem?_getD, List.getD_eq_getElem?_getD,
      List.getElem?_eq_getElem (hl.symm ▸ hi), List.getElem?_eq_getElem (hk.symm ▸ hi)] at hi'
    rw [List.getElem?_eq_getElem (hl.symm ▸ hi), List.getElem?_eq_getElem (hk.symm ▸ hi)]
    exact congrArg some hi'
  · rw [List.getElem?_eq_none (by omega), List.getElem?_eq_none (by omega)]

theorem shiftRows_shiftRows (h : l.length = 16) : shiftRows true (shiftRows false l) = l := by
  refine ext_getD (length_shiftRows true) h fun i hi => ?_
  rw [getD_shiftRows true hi, if_pos rfl, getD_shiftRows false (by omega),
    if_neg Bool.false_ne_true]
  congr 1
  omega

theorem mixColumns_mixColumns : ∀ {n : Nat} {l : List UInt8}, l.length = 4 * n →
    mixColumns true (mixColumns false l) = l
  | 0, l, h => by
    obtain rfl := List.length_eq_zero_iff.mp h
    rfl
  | n + 1, p0 :: p1 :: p2 :: p3 :: l, h => by
    have hl : l.length = 4 * n := by
      simp only [List.length_cons] at h
      omega
    obtain ⟨q0, q1, q2, q3, hq⟩ := List.length_eq_four.mp (length_mixColumn false p0 p1 p2 p3)
    rw [mixColumns, hq]
    show mixColumn true q0 q1 q2 q3 ++ mixColumns true (mixColumns false l) = _
    rw [mixColumn_mixColumn hq, mixColumns_mixColumns hl]
    rfl

/-- What a round leaves before the round key is added to it is what the round of the other half, one
later, begins with. -/
theorem decryptRound_eq (hT : T.length = 176) (s : List UInt8) (hi : i ≤ 10) (hi' : i ≠ 10) :
    decryptRound T (shiftRows false (subBytes false (encryptRound T s i))) (i + 1) =
      if i = 0 then addRoundKey (encryptRound T s i) (roundKey T i)
      else shiftRows false (subBytes false s) := by
  have hlen := length_encryptRound hT hi s
  have hshift : (shiftRows false (subBytes false s)).length = 4 * 4 := length_shiftRows false
  have hmix := length_mixColumns false hshift
  have hkey := length_roundKey hT hi
  rw [decryptRound, shiftRows_shiftRows ((length_subBytes false).trans hlen), subBytes_subBytes,
    Nat.add_sub_cancel]
  by_cases h0 : i = 0
  · rw [if_pos h0, if_neg (by omega)]
  · rw [if_neg h0, if_pos (by omega), encryptRound, if_pos (show i ≠ Nr from hi'),
      addRoundKey, addRoundKey, xorBytes_xorBytes (hmix.trans hkey.symm),
      mixColumns_mixColumns hshift]

theorem foldl_decryptRound (hT : T.length = 176) (hs : s.length = 16) (hn : n < 10) :
    (List.range' 1 (n + 1)).reverse.foldl (decryptRound T) (shiftRows false (subBytes false
      ((List.range' 1 n).foldl (encryptRound T) (addRoundKey s (roundKey T 0))))) = s := by
  have hfirst := length_addRoundKey_zero hT hs
  have hround := length_roundKey hT (Nat.zero_le 10)
  induction n with
  | zero =>
    have hlen := length_subBytes (l := addRoundKey s (roundKey T 0)) false
    show decryptRound T _ 1 = s
    rw [decryptRound, if_neg (by decide), List.range'_zero, List.foldl_nil,
      shiftRows_shiftRows (hlen.trans hfirst), subBytes_subBytes, addRoundKey, addRoundKey,
      xorBytes_xorBytes (hs.trans hround.symm)]
  | succ n ih =>
    have hstep := decryptRound_eq hT ((List.range' 1 n).foldl (encryptRound T)
      (addRoundKey s (roundKey T 0))) (show n + 1 ≤ 10 by omega) (by omega)
    rw [if_neg (by omega)] at hstep
    rw [List.range'_concat (n := n + 1), List.reverse_append, List.reverse_singleton,
      List.foldl_append, List.range'_concat (n := n), List.foldl_append, List.foldl_cons,
      List.foldl_nil, List.foldl_cons, List.foldl_nil, Nat.one_mul, Nat.one_mul, Nat.add_comm 1 n,
      Nat.add_comm 1 (n + 1), hstep]
    have hsame := ih (by omega)
    rw [List.range'_concat, Nat.one_mul, Nat.add_comm 1 n] at hsame
    exact hsame

/-- **A block that has been encrypted is decrypted.** -/
theorem blockDecrypt_blockEncrypt (hT : T.length = 176) (hs : s.length = 16) :
    blockDecrypt T (blockEncrypt T s) = s := by
  have hfirst := length_addRoundKey_zero hT hs
  have hshift (l : List UInt8) : (shiftRows false (subBytes false l)).length = 16 :=
    length_shiftRows false
  have hkey := length_roundKey hT (Nat.le_refl 10)
  have hlast : addRoundKey (blockEncrypt T s) (roundKey T Nr) = shiftRows false (subBytes false
      ((List.range' 1 9).foldl (encryptRound T) (addRoundKey s (roundKey T 0)))) := by
    show addRoundKey ((List.range' 1 (9 + 1)).foldl _ _) _ = _
    rw [List.range'_concat, List.foldl_append, List.foldl_cons, List.foldl_nil, encryptRound,
      if_neg (by decide)]
    exact xorBytes_xorBytes ((hshift _).trans hkey.symm)
  rw [blockDecrypt, hlast]
  exact foldl_decryptRound hT hs (by omega)

theorem length_decryptRound (hT : T.length = 176) (hi : i < 11) (s : List UInt8) :
    (decryptRound T s i).length = 16 := by
  have hkey := length_roundKey hT (show i - 1 ≤ 10 by omega)
  have hsub : (subBytes true (shiftRows true s)).length = 16 :=
    (length_subBytes true).trans (length_shiftRows true)
  have hadd : (addRoundKey (subBytes true (shiftRows true s)) (roundKey T (i - 1))).length =
      4 * 4 := by
    rw [addRoundKey, length_xorBytes (hsub.trans hkey.symm), hsub]
  rw [decryptRound]
  split
  · exact length_mixColumns true hadd
  · exact hadd

theorem length_blockDecrypt (hT : T.length = 176) (s : List UInt8) :
    (blockDecrypt T s).length = 16 := by
  rw [blockDecrypt, show Nr = 9 + 1 from rfl, List.range'_succ, List.reverse_cons,
    List.foldl_append, List.foldl_cons, List.foldl_nil]
  exact length_decryptRound hT (by omega) _

/-! ### Memory -/

variable {m : Ram} {p q : Nat} {iv x y : List UInt8} {xs cs : List (List UInt8)}

theorem xorBytesAt_eq : ∀ {n : Nat} {m : Ram} {p q : Nat} {x y : List UInt8}, At m p x → At m q y →
    x.length = n → y.length = n → Apart p n q n →
    xorBytesAt n p q m = .ok (m.put p (xorBytes x y))
  | 0, m, p, q, [], [], _, _, _, _, _ => congrArg Outcome.ok (put_nil m p).symm
  | n + 1, m, p, q, a :: x, b :: y, hx, hy, hxl, hyl, hap => by
    obtain ⟨ha, hx⟩ := at_cons.mp hx
    obtain ⟨hb, hy⟩ := at_cons.mp hy
    rw [List.length_cons, Nat.add_right_cancel_iff] at hxl hyl
    have hle : p + [a ^^^ b].length ≤ m.length := ha.le_length (List.cons_ne_nil a [])
    have hx' : At (m.put p [a ^^^ b]) (p + 1) x :=
      (at_put_apart hle (.inr (Nat.le_refl (p + 1)))).mpr hx
    have hy' : At (m.put p [a ^^^ b]) (q + 1) y := by
      refine (at_put_apart hle ?_).mpr hy
      rw [hyl]
      rcases hap with hap | hap
      · exact .inr (show p + 1 ≤ q + 1 by omega)
      · exact .inl (by omega)
    have hap' : Apart (p + 1) n (q + 1) n := hap.imp (by omega) (by omega)
    have hrest := xorBytesAt_eq hx' hy' hxl hyl hap'
    have hstore : m.store p (xorBytes [a] [b]) = .ok (m.put p [a ^^^ b]) := store_of_le hle
    have hload : m.load p 1 = .ok [a] := load_of_at ha (List.cons_ne_nil a [])
    have hload' : m.load q 1 = .ok [b] := load_of_at hb (List.cons_ne_nil b [])
    rw [xorBytesAt, hload, Outcome.ok_bind, hload', Outcome.ok_bind, hstore, Outcome.ok_bind, hrest]
    refine congrArg Outcome.ok (@put_append m p [a ^^^ b] _ ?_)
    have hlast := (at_cons.mpr ⟨ha, hx⟩).le_length (List.cons_ne_nil a x)
    rw [List.length_append, length_xorBytes (hxl.trans hyl.symm)]
    rw [List.length_cons] at hlast
    show p + (1 + x.length) ≤ _
    omega

theorem onState_eq {f : List UInt8 → List UInt8} (hx : At m p x) (hxl : x.length = 16)
    (hf : (f x).length = 16) : onState f p m = .ok (m.put p (f x)) := by
  have hne : x ≠ [] := by
    rintro rfl
    cases hxl
  have hload := load_of_at hx hne
  rw [hxl] at hload
  have hle := hx.le_length hne
  rw [onState, show 4 * Nb = 16 from rfl, hload]
  exact store_of_le (by rw [hf, ← hxl]; exact hle)

theorem length_flatten (h : ∀ x ∈ xs, x.length = 16) : xs.flatten.length = 16 * xs.length := by
  induction xs with
  | nil => rfl
  | cons x xs ih =>
    obtain ⟨hx, hxs⟩ := List.forall_mem_cons.mp h
    rw [List.flatten_cons, List.length_append, ih hxs, hx, List.length_cons]
    omega

theorem length_of_mem_chain (hT : T.length = 176) (hiv : iv.length = 16)
    (hxs : ∀ x ∈ xs, x.length = 16) :
    ∀ c ∈ chain (blockEncrypt T) xorBytes iv xs, c.length = 16 :=
  forall_chain (P := fun b : List UInt8 => b.length = 16)
    (fun _ hb => length_blockEncrypt hT hb)
    (fun _ _ ha hb => (length_xorBytes (ha.trans hb.symm)).trans ha) hiv hxs

theorem length_chain_flatten (hT : T.length = 176) (hiv : iv.length = 16)
    (hxs : ∀ x ∈ xs, x.length = 16) :
    (chain (blockEncrypt T) xorBytes iv xs).flatten.length = 16 * xs.length := by
  rw [length_flatten (length_of_mem_chain hT hiv hxs), length_chain]

/-- The loop of `AES_Encrypt` chains what lies there. -/
theorem encryptBlocks_eq (hT : T.length = 176) : ∀ {xs : List (List UInt8)} {m : Ram} {p q : Nat}
    {iv : List UInt8}, (∀ x ∈ xs, x.length = 16) → At m p xs.flatten → At m q iv →
    iv.length = 16 → Apart q 16 p (16 * xs.length) → encryptBlocks T xs.length p q m =
      .ok (m.put p (chain (blockEncrypt T) xorBytes iv xs).flatten) := by
  intro xs
  induction xs with
  | nil =>
    intro m p q iv _ _ _ _ _
    exact congrArg Outcome.ok (put_nil m p).symm
  | cons x xs ih =>
    intro m p q iv hlen hx hq hiv hap
    obtain ⟨hxl, hxs⟩ := List.forall_mem_cons.mp hlen
    rw [List.length_cons] at hap
    rw [List.flatten_cons] at hx
    have hroom : p + 16 * (xs.length + 1) ≤ m.length := by
      have hne : x ++ xs.flatten ≠ [] := fun h => by
        rw [(List.append_eq_nil_iff.mp h).1] at hxl
        cases hxl
      have hle := hx.le_length hne
      rw [List.length_append, hxl, length_flatten hxs] at hle
      omega
    obtain ⟨hx, hrest⟩ := at_append.mp hx
    rw [hxl] at hrest
    have hxor : (xorBytes x iv).length = 16 := by rw [length_xorBytes (hxl.trans hiv.symm), hxl]
    have hc := length_blockEncrypt hT hxor
    have hap16 : Apart p 16 q 16 := by
      rcases hap with hap | hap
      · exact .inr hap
      · exact .inl (by omega)
    have hput : (m.put p (xorBytes x iv)).length = m.length := length_put (by omega)
    have hstep : onState (blockEncrypt T) p (m.put p (xorBytes x iv)) =
        .ok (m.put p (blockEncrypt T (xorBytes x iv))) := by
      rw [onState_eq (at_put (by omega)) hxor hc, put_put (by omega) (hxor.trans hc.symm)]
    have hrest' : At (m.put p (blockEncrypt T (xorBytes x iv))) (p + 16) xs.flatten := by
      refine (at_put_apart (by omega) (.inr ?_)).mpr hrest
      rw [hc]
    rw [List.length_cons, encryptBlocks, show 4 * Nb = 16 from rfl,
      xorBytesAt_eq hx hq hxl hiv hap16, Outcome.ok_bind, hstep, Outcome.ok_bind,
      ih hxs hrest' (at_put (by omega)) hc (.inl (Nat.le_refl (p + 16))), chain, List.flatten_cons]
    have htail := length_chain_flatten hT hc hxs
    rw [← put_append (by rw [List.length_append, htail]; omega), hc]

theorem length_unchain_flatten (hT : T.length = 176) (hiv : iv.length = 16)
    (hcs : ∀ c ∈ cs, c.length = 16) :
    (unchain (blockDecrypt T) xorBytes iv cs).flatten.length = 16 * cs.length := by
  have hall := forall_unchain (P := fun b : List UInt8 => b.length = 16)
    (fun b _ => length_blockDecrypt hT b)
    (fun a b ha hb => (length_xorBytes (ha.trans hb.symm)).trans ha) hiv hcs
  rw [length_flatten hall, length_unchain]

/-- The loop of `AES_Decrypt` unchains it, from the last block on. -/
theorem decryptBlocks_eq (hT : T.length = 176) : ∀ {cs : List (List UInt8)} {m : Ram} {p q : Nat}
    {iv : List UInt8}, (∀ c ∈ cs, c.length = 16) → At m p cs.flatten → At m q iv →
    iv.length = 16 → Apart q 16 p (16 * cs.length) →
    decryptBlocks T q cs.length (p + 16 * cs.length - 16) m =
      .ok (m.put p (unchain (blockDecrypt T) xorBytes iv cs).flatten) := by
  intro cs
  induction cs using List.reverseRecOn with
  | nil =>
    intro m p q iv _ _ _ _ _
    exact congrArg Outcome.ok (put_nil m p).symm
  | append_singleton cs c ih =>
    intro m p q iv hlen hx hq hiv hap
    obtain ⟨hcs, hcl⟩ := List.forall_mem_append.mp hlen
    have hcl : c.length = 16 := hcl c List.mem_cons_self
    have hflat := length_flatten hcs
    rw [List.length_append, List.length_singleton] at hap ⊢
    rw [List.flatten_append, List.flatten_singleton] at hx
    have hroom : p + 16 * (cs.length + 1) ≤ m.length := by
      have hne : cs.flatten ++ c ≠ [] := fun h => by
        rw [(List.append_eq_nil_iff.mp h).2] at hcl
        cases hcl
      have hle := hx.le_length hne
      rw [List.length_append, hcl, hflat] at hle
      omega
    obtain ⟨hfront, hc⟩ := at_append.mp hx
    rw [hflat] at hc
    have hd := length_blockDecrypt hT c
    have hpos : p + 16 * (cs.length + 1) - 16 = p + 16 * cs.length := by omega
    have hput : (m.put (p + 16 * cs.length) (blockDecrypt T c)).length = m.length :=
      length_put (by omega)
    -- the block before, which is not yet decrypted, or the initial vector
    obtain ⟨hprev, hprevl, hpap⟩ : At (m.put (p + 16 * cs.length) (blockDecrypt T c))
        (if cs.length + 1 = 1 then q else p + 16 * cs.length - 16) (cs.getLastD iv) ∧
        (cs.getLastD iv).length = 16 ∧
        Apart (p + 16 * cs.length) 16 (if cs.length + 1 = 1 then q else p + 16 * cs.length - 16) 16 := by
      rcases List.eq_nil_or_concat cs with rfl | ⟨front, last, rfl⟩
      · have hqp : Apart q 16 (p + 16 * 0) 16 := hap
        refine ⟨(at_put_apart (by omega) ?_).mpr hq, hiv, apart_comm.mp hqp⟩
        show Apart q iv.length (p + 16 * 0) _
        rw [hiv, hd]
        exact hqp
      · rw [List.concat_eq_append] at hflat hfront hroom hput hcs ⊢
        have hlast : last.length = 16 := hcs last (List.mem_append_right _ List.mem_cons_self)
        have hfl := length_flatten (List.forall_mem_append.mp hcs).1
        rw [List.length_append, List.length_singleton] at hflat hroom hput ⊢
        rw [List.flatten_append, List.flatten_singleton] at hfront
        have hat := (at_append.mp hfront).2
        rw [hfl] at hat
        rw [if_neg (by omega), List.getLastD_concat,
          show p + 16 * (front.length + 1) - 16 = p + 16 * front.length by omega]
        refine ⟨(at_put_apart (by omega) (.inl ?_)).mpr hat, hlast, .inr (by omega)⟩
        omega
    have hxor : (xorBytes (blockDecrypt T c) (cs.getLastD iv)).length = 16 := by
      rw [length_xorBytes (hd.trans hprevl.symm), hd]
    have hput' : (m.put (p + 16 * cs.length) (xorBytes (blockDecrypt T c)
        (cs.getLastD iv))).length = m.length := length_put (by omega)
    have hfront' : At (m.put (p + 16 * cs.length) (xorBytes (blockDecrypt T c) (cs.getLastD iv))) p
        cs.flatten := (at_put_apart (by omega) (.inl (by omega))).mpr hfront
    have hq' : At (m.put (p + 16 * cs.length) (xorBytes (blockDecrypt T c) (cs.getLastD iv))) q iv := by
      refine (at_put_apart (by omega) ?_).mpr hq
      rw [hiv, hxor]
      exact hap.imp (by omega) (by omega)
    have hrest := ih hcs hfront' hq' hiv (hap.imp (by omega) (by omega))
    rw [decryptBlocks, hpos, onState_eq hc hcl hd, Outcome.ok_bind, show 4 * Nb = 16 from rfl,
      xorBytesAt_eq (at_put (by omega)) hprev hd hprevl hpap, Outcome.ok_bind,
      put_put (by omega) (hd.trans hxor.symm), hrest, unchain_concat, List.flatten_append,
      List.flatten_singleton]
    have hlow := length_unchain_flatten hT hiv hcs
    rw [← hlow, put_append' (by rw [List.length_append, hlow]; omega)]

/-! ### Whole texts -/

theorem copyUnlessSame_eq {bs : List UInt8} (h : At m q bs) (hne : bs ≠ [])
    (hroom : p + bs.length ≤ m.length) (hap : q = p ∨ Apart p bs.length q bs.length) :
    copyUnlessSame p q bs.length m = .ok (m.put p bs) := by
  rw [copyUnlessSame]
  by_cases hpq : q = p
  · subst hpq
    rw [if_neg (not_not.mpr rfl), put_of_at h hroom]
  · rw [if_pos hpq]
    exact memcpy_of_at h hne hroom (hap.resolve_left hpq)

theorem flatten_ne_nil (hxs : ∀ x ∈ xs, x.length = 16) (hne : xs ≠ []) : xs.flatten ≠ [] := by
  intro h
  have hlen := length_flatten hxs
  rw [h] at hlen
  have hpos := List.length_pos_iff.mpr hne
  have hzero : 0 = 16 * xs.length := hlen
  omega

/-- What `AES_Encrypt` leaves in memory. -/
theorem AES_Encrypt_eq (hT : T.length = 176) (hxs : ∀ x ∈ xs, x.length = 16) (hne : xs ≠ [])
    (hp : At m p xs.flatten) {dst pIV : Nat} (hroom : dst + 16 * xs.length ≤ m.length)
    (hto : p = dst ∨ Apart dst (16 * xs.length) p (16 * xs.length)) (hIV : At m pIV iv)
    (hiv : iv.length = 16) (hap : Apart pIV 16 dst (16 * xs.length)) :
    AES_Encrypt T p dst (16 * xs.length) pIV m =
      .ok (m.put dst (chain (blockEncrypt T) xorBytes iv xs).flatten) := by
  have hflat := length_flatten hxs
  rw [← hflat] at hroom hto
  have hcopy := copyUnlessSame_eq hp (flatten_ne_nil hxs hne) hroom hto
  rw [hflat] at hcopy hroom
  have hIV' : At (m.put dst xs.flatten) pIV iv := by
    refine (at_put_apart (by omega) ?_).mpr hIV
    rw [hiv, hflat]
    exact hap
  have hchain := length_chain_flatten hT hiv hxs
  rw [AES_Encrypt, hcopy, Outcome.ok_bind, show 16 * xs.length / (4 * Nb) = xs.length by
      rw [show 4 * Nb = 16 from rfl]; omega,
    encryptBlocks_eq hT hxs (at_put (by omega)) hIV' hiv hap,
    put_put (by omega) (hflat.trans hchain.symm)]

/-- What `AES_Decrypt` leaves in memory. -/
theorem AES_Decrypt_eq (hT : T.length = 176) (hcs : ∀ c ∈ cs, c.length = 16) (hne : cs ≠ [])
    (hp : At m p cs.flatten) {dst pIV : Nat} (hroom : dst + 16 * cs.length ≤ m.length)
    (hto : p = dst ∨ Apart dst (16 * cs.length) p (16 * cs.length)) (hIV : At m pIV iv)
    (hiv : iv.length = 16) (hap : Apart pIV 16 dst (16 * cs.length)) :
    AES_Decrypt T dst p (16 * cs.length) pIV m =
      .ok (m.put dst (unchain (blockDecrypt T) xorBytes iv cs).flatten) := by
  have hflat := length_flatten hcs
  rw [← hflat] at hroom hto
  have hcopy := copyUnlessSame_eq hp (flatten_ne_nil hcs hne) hroom hto
  rw [hflat] at hcopy hroom
  have hIV' : At (m.put dst cs.flatten) pIV iv := by
    refine (at_put_apart (by omega) ?_).mpr hIV
    rw [hiv, hflat]
    exact hap
  have hchain := length_unchain_flatten hT hiv hcs
  rw [AES_Decrypt, hcopy, Outcome.ok_bind, show 16 * cs.length / (4 * Nb) = cs.length by
      rw [show 4 * Nb = 16 from rfl]; omega, show 4 * Nb = 16 from rfl,
    decryptBlocks_eq hT hcs (at_put (by omega)) hIV' hiv hap,
    put_put (by omega) (hflat.trans hchain.symm)]

theorem unchain_chain_eq (hT : T.length = 176) (hiv : iv.length = 16)
    (hxs : ∀ x ∈ xs, x.length = 16) :
    unchain (blockDecrypt T) xorBytes iv (chain (blockEncrypt T) xorBytes iv xs) = xs := by
  refine unchain_chain (P := fun b : List UInt8 => b.length = 16) ?_ ?_ ?_ ?_ hiv hxs
  · exact fun b hb => length_blockEncrypt hT hb
  · exact fun a b ha hb => (length_xorBytes (ha.trans hb.symm)).trans ha
  · exact fun b hb => blockDecrypt_blockEncrypt hT hb
  · exact fun a b ha hb => xorBytes_xorBytes (ha.trans hb.symm)

/-! ### The results -/

/-- **The code is AES-128 and its inverse.**  With the round keys of `AES_Init`, `BlockEncrypt`
computes the cipher of the standard and `BlockDecrypt` undoes it, for every key and every block. -/
theorem aes_block {key : List UInt8} (hkey : key.length = 16) (hs : s.length = 16) :
    toState (blockEncrypt (AES_Init key) s) = Fips.cipher key (toState s) ∧
      blockDecrypt (AES_Init key) (blockEncrypt (AES_Init key) s) = s :=
  ⟨cipher_eq hkey hs, blockDecrypt_blockEncrypt (length_AES_Init hkey) hs⟩

def sampleKey : List UInt8 :=
  [0x00, 0x01, 0x02, 0x03, 0x04, 0x05, 0x06, 0x07, 0x08, 0x09, 0x0a, 0x0b, 0x0c, 0x0d, 0x0e, 0x0f]

def sampleBlock : List UInt8 :=
  [0x00, 0x11, 0x22, 0x33, 0x44, 0x55, 0x66, 0x77, 0x88, 0x99, 0xaa, 0xbb, 0xcc, 0xdd, 0xee, 0xff]

theorem aes_block_sample :
    toState (blockEncrypt (AES_Init sampleKey) sampleBlock) =
        Fips.cipher sampleKey (toState sampleBlock) ∧
      blockDecrypt (AES_Init sampleKey) (blockEncrypt (AES_Init sampleKey) sampleBlock) =
        sampleBlock :=
  aes_block rfl rfl

set_option maxRecDepth 20000 in
example : blockEncrypt (AES_Init sampleKey) sampleBlock =
    [0x69, 0xc4, 0xe0, 0xd8, 0x6a, 0x7b, 0x04, 0x30, 0xd8, 0xcd, 0xb7, 0x80, 0x70, 0xb4, 0xc5,
      0x5a] := by
  decide

/-- **What has been encrypted can be decrypted, wherever it lies.**  The plain text is a number of
whole blocks, and the cipher text as many, chained; it may lie on the plain text or beside it, and
what comes back on the cipher text or beside it.  Only the initial vector lies elsewhere.  Nothing
outside of the two results is touched. -/
theorem aes_cbc {key : List UInt8} (hkey : key.length = 16) (hxs : ∀ x ∈ xs, x.length = 16)
    (hne : xs ≠ []) {pPlainText pCipherText pIV : Nat} (hp : At m pPlainText xs.flatten)
    (hroom : pCipherText + 16 * xs.length ≤ m.length)
    (hto : pPlainText = pCipherText ∨ Apart pCipherText (16 * xs.length) pPlainText (16 * xs.length))
    (hIV : At m pIV iv) (hiv : iv.length = 16) (hap : Apart pIV 16 pCipherText (16 * xs.length)) :
    ∃ cs : List (List UInt8), cs = chain (blockEncrypt (AES_Init key)) xorBytes iv xs ∧
      cs.length = xs.length ∧ (∀ c ∈ cs, c.length = 16) ∧
      AES_Encrypt (AES_Init key) pPlainText pCipherText (16 * xs.length) pIV m =
        .ok (m.put pCipherText cs.flatten) ∧
      ∀ pResult, pResult + 16 * xs.length ≤ m.length → Apart pIV 16 pResult (16 * xs.length) →
        (pCipherText = pResult ∨ Apart pResult (16 * xs.length) pCipherText (16 * xs.length)) →
        AES_Decrypt (AES_Init key) pResult pCipherText (16 * xs.length) pIV
          (m.put pCipherText cs.flatten) =
            .ok ((m.put pCipherText cs.flatten).put pResult xs.flatten) := by
  have hT := length_AES_Init hkey
  have hcs := length_of_mem_chain hT hiv hxs
  have hlen := length_chain (blockEncrypt (AES_Init key)) xorBytes iv xs
  have hflat := length_chain_flatten hT hiv hxs
  refine ⟨chain (blockEncrypt (AES_Init key)) xorBytes iv xs, rfl, hlen, hcs,
    AES_Encrypt_eq hT hxs hne hp hroom hto hIV hiv hap, fun pResult hresult hap' hto' => ?_⟩
  have hput : (m.put pCipherText
      (chain (blockEncrypt (AES_Init key)) xorBytes iv xs).flatten).length = m.length :=
    length_put (by omega)
  have hIV' : At (m.put pCipherText (chain (blockEncrypt (AES_Init key)) xorBytes iv xs).flatten)
      pIV iv := by
    refine (at_put_apart (by omega) ?_).mpr hIV
    rw [hiv, hflat]
    exact hap
  have hne' : chain (blockEncrypt (AES_Init key)) xorBytes iv xs ≠ [] := fun h => by
    rw [h] at hlen
    exact hne (List.length_eq_zero_iff.mp hlen.symm)
  rw [← hlen] at hresult hap' hto' ⊢
  rw [AES_Decrypt_eq hT hcs hne' (at_put (by omega)) (by omega) hto' hIV' hiv hap',
    unchain_chain_eq hT hiv hxs]

/-- A block, and an initial vector behind it. -/
def sampleRam : Ram := sampleBlock ++ List.replicate 16 0

/-- The block is encrypted in its place, and back. -/
theorem aes_cbc_sample : ∃ cs : List (List UInt8),
    cs = chain (blockEncrypt (AES_Init sampleKey)) xorBytes (List.replicate 16 0) [sampleBlock] ∧
    cs.length = 1 ∧ (∀ c ∈ cs, c.length = 16) ∧
    AES_Encrypt (AES_Init sampleKey) 0 0 16 16 sampleRam = .ok (sampleRam.put 0 cs.flatten) ∧
    AES_Decrypt (AES_Init sampleKey) 0 0 16 16 (sampleRam.put 0 cs.flatten) =
      .ok ((sampleRam.put 0 cs.flatten).put 0 sampleBlock) := by
  obtain ⟨cs, hcs, hlen, hblocks, henc, hdec⟩ := @aes_cbc sampleRam (List.replicate 16 0) [sampleBlock] sampleKey
    rfl (by simp [sampleBlock]) (List.cons_ne_nil _ _) 0 0 16 (by unfold At; decide) (by decide)
    (.inl rfl) (by unfold At; decide) rfl (by decide)
  exact ⟨cs, hcs, hlen, hblocks, henc, hdec 0 (by decide) (by decide) (.inl rfl)⟩

end

end Nl6621.Aes
