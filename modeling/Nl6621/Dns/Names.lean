import Mathlib.Data.List.Forall2
import Mathlib.Data.List.GetD
import Nl6621.Dns.Server

/-!
# The comparison of names

`_DnsCompareName` goes over the labels of the query and the own name side by side.  Between two
labels it passes over one character of the own name without looking at it, and behind the last one
it looks for the terminator, which a name of 32 characters does not have inside `DnsName`.

`Fits own labels` says that the own name is as long as the dotted query and agrees with it in every
character of a label.  `compareName_exact_iff` says that the comparison is exact but for these
names, and for these exact if the characters between the labels are dots and there is room for the
terminator.  `ownReads` are the places of the own name that are read.
-/

namespace Nl6621.Dns

open Lib

/-! ### The names the server accepts -/

def DNSS_ERR_SUCCESS : Int := 0

def DNSS_ERR_LINKDOWN : Int := -1

def DNSS_ERR_PARAM : Int := -2

def DNSS_ERR_MEM : Int := -3

/-- `memset` to zero over the 32 bytes of `DnsName`, and the name moved to it. -/
def putName (own : List UInt8) (mem : Int → UInt8) : Int → UInt8 := fun k =>
  if 0 ≤ k ∧ k < 32 then own.getD k.toNat 0 else mem k

/-- A word of the structure at the place `off` from `DnsName`. -/
def putWord (off : Int) (w : UInt8 × UInt8 × UInt8 × UInt8) (mem : Int → UInt8) : Int → UInt8 :=
  fun k =>
    if k = off then w.1 else if k = off + 1 then w.2.1 else if k = off + 2 then w.2.2.1
    else if k = off + 3 then w.2.2.2 else mem k

/-- The argument is a C string without its terminator, or `NULL`. -/
def dnssConfig (DnsName : Option (List UInt8)) (srv : DnsServer) : Int × DnsServer :=
  match DnsName with
  | none => (DNSS_ERR_PARAM, srv)
  | some name =>
    if name.length > 32 then (DNSS_ERR_PARAM, srv)
    else (DNSS_ERR_SUCCESS, { srv with DnsName := putName name srv.DnsName })

/-- `Netif` says whether the interface is up, and has its address; `udp_new` the pointer it returns.
In the structure `Socket` lies before `DnsName` and `HostIp` behind it. -/
def dnssStart (Netif : Option (Bool × UInt8 × UInt8 × UInt8 × UInt8)) (DnsName : List UInt8)
    (udp_new : Option (UInt8 × UInt8 × UInt8 × UInt8)) (srv : DnsServer) : Int × DnsServer :=
  match Netif with
  | none => (DNSS_ERR_PARAM, srv)
  | some (up, ip_addr) =>
    if DnsName.length > 32 then (DNSS_ERR_PARAM, srv)
    else if !up then (DNSS_ERR_LINKDOWN, srv)
    else
      let mem := putWord 32 ip_addr (putName DnsName srv.DnsName)
      match udp_new with
      | none => (DNSS_ERR_MEM, ⟨putWord (-4) (0, 0, 0, 0) mem, ip_addr⟩)
      | some pcb => (DNSS_ERR_SUCCESS, ⟨putWord (-4) pcb mem, ip_addr⟩)

/-- The name has just been accepted. -/
def Accepted (own : List UInt8) (srv : DnsServer) : Prop :=
  (∃ srv₀, dnssConfig (some own) srv₀ = (DNSS_ERR_SUCCESS, srv)) ∨
    ∃ Netif udp_new srv₀, dnssStart Netif own udp_new srv₀ = (DNSS_ERR_SUCCESS, srv)

/-- The name is in `DnsName`, with zeros behind it. -/
structure Holds (own : List UInt8) (MyDns : Int → UInt8) : Prop where
  length_le : own.length ≤ 32
  eq : ∀ k : Nat, k < 32 → MyDns k = own.getD k 0

section

variable {own : List UInt8} {srv srv₀ : DnsServer} {MyDns : Int → UInt8}

theorem errors_ne_success : DNSS_ERR_PARAM ≠ DNSS_ERR_SUCCESS ∧
    DNSS_ERR_LINKDOWN ≠ DNSS_ERR_SUCCESS ∧ DNSS_ERR_MEM ≠ DNSS_ERR_SUCCESS := by decide

theorem putWord_of_ne {off : Int} {w : UInt8 × UInt8 × UInt8 × UInt8} {k : Int}
    (h : k < off ∨ off + 3 < k) : putWord off w MyDns k = MyDns k := by
  rw [putWord, if_neg (by omega), if_neg (by omega), if_neg (by omega), if_neg (by omega)]

theorem holds_putName (h : own.length ≤ 32) : Holds own (putName own MyDns) := by
  refine ⟨h, fun k hk => ?_⟩
  rw [putName, if_pos ⟨Int.natCast_nonneg k, by omega⟩, Int.toNat_natCast]

theorem dnssConfig_inv (h : dnssConfig (some own) srv₀ = (DNSS_ERR_SUCCESS, srv)) :
    own.length ≤ 32 ∧ srv = { srv₀ with DnsName := putName own srv₀.DnsName } := by
  rw [dnssConfig] at h
  by_cases hlen : own.length > 32
  · rw [if_pos hlen] at h
    exact absurd (congrArg Prod.fst h) errors_ne_success.1
  · rw [if_neg hlen] at h
    exact ⟨Nat.le_of_not_lt hlen, (congrArg Prod.snd h).symm⟩

theorem dnssStart_inv {Netif : Option (Bool × UInt8 × UInt8 × UInt8 × UInt8)}
    {udp_new : Option (UInt8 × UInt8 × UInt8 × UInt8)}
    (h : dnssStart Netif own udp_new srv₀ = (DNSS_ERR_SUCCESS, srv)) :
    own.length ≤ 32 ∧ ∃ up ip_addr pcb, Netif = some (up, ip_addr) ∧
      srv = ⟨putWord (-4) pcb (putWord 32 ip_addr (putName own srv₀.DnsName)), ip_addr⟩ := by
  cases Netif with
  | none => exact absurd (congrArg Prod.fst h) errors_ne_success.1
  | some n =>
    obtain ⟨up, ip_addr⟩ := n
    simp only [dnssStart] at h
    by_cases hlen : own.length > 32
    · rw [if_pos hlen] at h
      exact absurd (congrArg Prod.fst h) errors_ne_success.1
    rw [if_neg hlen] at h
    cases up with
    | false => exact absurd (congrArg Prod.fst h) errors_ne_success.2.1
    | true =>
      cases udp_new with
      | none => exact absurd (congrArg Prod.fst h) errors_ne_success.2.2
      | some pcb =>
        exact ⟨Nat.le_of_not_lt hlen, true, ip_addr, pcb, rfl, (congrArg Prod.snd h).symm⟩

theorem Accepted.holds (h : Accepted own srv) : Holds own srv.DnsName := by
  rcases h with ⟨srv₀, h⟩ | ⟨Netif, udp_new, srv₀, h⟩
  · obtain ⟨hlen, rfl⟩ := dnssConfig_inv h
    exact holds_putName hlen
  · obtain ⟨hlen, -, ip_addr, pcb, -, rfl⟩ := dnssStart_inv h
    refine ⟨hlen, fun k hk => ?_⟩
    have hpcb : putWord (-4) pcb (putWord 32 ip_addr (putName own srv₀.DnsName)) k =
        putWord 32 ip_addr (putName own srv₀.DnsName) k := putWord_of_ne (by omega)
    have hip : putWord 32 ip_addr (putName own srv₀.DnsName) k = putName own srv₀.DnsName k :=
      putWord_of_ne (by omega)
    exact hpcb.trans (hip.trans ((holds_putName hlen).eq k hk))

end

/-! ### Names -/

def encodeName (labels : List (List UInt8)) : List UInt8 :=
  labels.flatMap fun l => UInt8.ofNat l.length :: l

def IsLabel (l : List UInt8) : Prop := 1 ≤ l.length ∧ l.length ≤ 63 ∧ (0 : UInt8) ∉ l

def dot : UInt8 := 46

/-- The labels joined with dots. -/
def dotted : List (List UInt8) → List UInt8
  | [] => []
  | [l] => l
  | l :: l' :: ls => l ++ dot :: dotted (l' :: ls)

/-- The same character, or the same letter in the other case. -/
def SameLetter (a b : UInt8) : Prop :=
  a = b ∨ (65 ≤ a ∧ a ≤ 90 ∧ b = a + 32) ∨ (65 ≤ b ∧ b ≤ 90 ∧ a = b + 32)

def SameName : List UInt8 → List UInt8 → Prop := List.Forall₂ SameLetter

/-- The labels agree with the own name from its character `my` on; what is between them is passed
over. -/
def LabelsAgree (MyDns : Int → UInt8) (my : Int) : List (List UInt8) → Prop
  | [] => True
  | l :: ls => Agree MyDns my l ∧ LabelsAgree MyDns (my + l.length + 1) ls

/-- A string as memory. -/
def ownMem (own : List UInt8) : Int → UInt8 := fun k => own.getD k.toNat 0

/-- The own name has the length of the dotted name and the characters of its labels. -/
def Fits (own : List UInt8) (labels : List (List UInt8)) : Prop :=
  own.length = (dotted labels).length ∧ LabelsAgree (ownMem own) 0 labels

theorem toNat_nstToUpper (c : UInt8) : (nstToUpper c).toNat =
    if 97 ≤ c.toNat ∧ c.toNat ≤ 122 then c.toNat - 32 else c.toNat := by
  have hc := c.toNat_lt
  have hiff : (97 ≤ c ∧ c ≤ 122) ↔ (97 ≤ c.toNat ∧ c.toNat ≤ 122) := by
    rw [UInt8.le_iff_toNat_le, UInt8.le_iff_toNat_le]
    exact Iff.rfl
  rw [nstToUpper]
  by_cases h : 97 ≤ c.toNat ∧ c.toNat ≤ 122
  · rw [if_pos (hiff.mpr h), if_pos h, UInt8.toNat_add, UInt8.toNat_sub_of_le _ _ (hiff.mpr h).1]
    have h97 : (97 : UInt8).toNat = 97 := rfl
    have h65 : (65 : UInt8).toNat = 65 := rfl
    omega
  · rw [if_neg (mt hiff.mp h), if_neg h]

theorem nstToUpper_eq_iff (a b : UInt8) : nstToUpper a = nstToUpper b ↔ SameLetter a b := by
  have ha := a.toNat_lt
  have hb := b.toNat_lt
  have h65 : (65 : UInt8).toNat = 65 := rfl
  have h90 : (90 : UInt8).toNat = 90 := rfl
  have h32 : (32 : UInt8).toNat = 32 := rfl
  rw [← UInt8.toNat_inj, toNat_nstToUpper, toNat_nstToUpper, SameLetter]
  simp only [← UInt8.toNat_inj, UInt8.le_iff_toNat_le, UInt8.toNat_add, h65, h90, h32]
  split <;> split <;> omega

theorem SameLetter.zero_right {a : UInt8} (h : SameLetter a 0) : a = 0 := by
  rcases h with rfl | ⟨h, h', h0⟩ | ⟨h, -⟩
  · rfl
  · have hsum := congrArg UInt8.toNat h0
    rw [UInt8.toNat_add] at hsum
    rw [UInt8.le_iff_toNat_le] at h h'
    have h65 : (65 : UInt8).toNat = 65 := rfl
    have h90 : (90 : UInt8).toNat = 90 := rfl
    have h32 : (32 : UInt8).toNat = 32 := rfl
    have hz : (0 : UInt8).toNat = 0 := rfl
    omega
  · exact absurd h (by decide)

/-! ### What is read of the own name -/

/-- The places that are read for a label. -/
def labelReads (MyDns : Int → UInt8) (my : Int) : Nat → List UInt8 → List Int
  | 0, _ => []
  | _ + 1, [] => [my]
  | n + 1, b :: Query =>
    my :: if nstToUpper (MyDns my) ≠ nstToUpper b then [] else labelReads MyDns (my + 1) n Query

def nameReads (MyDns : Int → UInt8) (my : Int) : List UInt8 → List Int
  | [] => []
  | n :: Query =>
    if n &&& 0xc0 = 0xc0 then [my - 1]
    else
      labelReads MyDns my n.toNat Query ++
        match h : compareLabel MyDns my n.toNat Query with
        | .ok (some (b :: rest)) =>
          if b ≠ 0 then nameReads MyDns (my + n.toNat + 1) (b :: rest)
          else [my + n.toNat + 1 - 1]
        | _ => []
termination_by Query => Query.length
decreasing_by
  have hlen := compareLabel_length h
  simp only [List.length_cons] at hlen ⊢
  omega

/-- The places of the own name that `_DnsCompareName` reads. -/
def ownReads (MyDns : Int → UInt8) (Query : List UInt8) : List Int :=
  match strlen Query with
  | .ok len => if sub32 len 1 > 32 then [] else nameReads MyDns 0 Query
  | _ => []

section

variable {MyDns MyDns' : Int → UInt8}

theorem nameReads_cons (MyDns : Int → UInt8) (my : Int) (n : UInt8) (Query : List UInt8) :
    nameReads MyDns my (n :: Query) =
      if n &&& 0xc0 = 0xc0 then [my - 1]
      else
        labelReads MyDns my n.toNat Query ++
          match compareLabel MyDns my n.toNat Query with
          | .ok (some (b :: rest)) =>
            if b ≠ 0 then nameReads MyDns (my + n.toNat + 1) (b :: rest)
            else [my + n.toNat + 1 - 1]
          | _ => [] := by
  rw [nameReads]
  split
  · rfl
  · congr 1
    split <;> rename_i h
    · rw [h]
    · split <;> rename_i h'
      · exact absurd h' (h _ _)
      · rfl

theorem compareLabel_reads : ∀ (n : Nat) (my : Int) (Query : List UInt8),
    (∀ a ∈ labelReads MyDns my n Query, MyDns' a = MyDns a) →
      compareLabel MyDns' my n Query = compareLabel MyDns my n Query := by
  intro n
  induction n with
  | zero => intro my Query _; rfl
  | succ n ih =>
    intro my Query h
    cases Query with
    | nil => rfl
    | cons b Query =>
      rw [labelReads] at h
      have hmy : MyDns' my = MyDns my := h my List.mem_cons_self
      rw [compareLabel, compareLabel, hmy]
      by_cases hne : nstToUpper (MyDns my) ≠ nstToUpper b
      · rw [if_pos hne, if_pos hne]
      · rw [if_neg hne] at h
        rw [if_neg hne, if_neg hne]
        exact ih _ _ fun a ha => h a (List.mem_cons_of_mem _ ha)

theorem compareLabels_reads : ∀ (k : Nat) (my : Int) (Query : List UInt8), Query.length = k →
    (∀ a ∈ nameReads MyDns my Query, MyDns' a = MyDns a) →
      compareLabels MyDns' my Query = compareLabels MyDns my Query := by
  intro k
  induction k using Nat.strongRecOn with
  | ind k ih =>
    intro my Query hk h
    cases Query with
    | nil => rw [compareLabels, compareLabels]
    | cons n Query =>
      rw [nameReads_cons] at h
      rw [compareLabels_cons, compareLabels_cons]
      by_cases hn : n &&& 0xc0 = 0xc0
      · rw [if_pos hn] at h
        rw [if_pos hn, if_pos hn, atEnd, atEnd, h (my - 1) List.mem_cons_self]
      · rw [if_neg hn] at h
        rw [if_neg hn, if_neg hn,
          compareLabel_reads _ _ _ fun a ha => h a (List.mem_append_left _ ha)]
        cases hc : compareLabel MyDns my n.toNat Query with
        | assertFail => rfl
        | fault => rfl
        | ok o =>
          cases o with
          | none => rfl
          | some rest =>
            cases rest with
            | nil => rfl
            | cons b rest =>
              rw [hc] at h
              simp only at h ⊢
              by_cases hb : b ≠ 0
              · rw [if_pos hb] at h
                have hlen := compareLabel_length hc
                rw [List.length_cons] at hk
                rw [if_pos hb, if_pos hb]
                exact ih _ (by omega) _ _ rfl fun a ha => h a (List.mem_append_right _ ha)
              · rw [if_neg hb] at h
                have hend := h _ (List.mem_append_right _ List.mem_cons_self)
                rw [if_neg hb, if_neg hb, atEnd, atEnd, hend]

/-- **`ownReads` misses nothing**: no other place of the own name has an influence. -/
theorem dnsCompareName_reads {Query : List UInt8}
    (h : ∀ a ∈ ownReads MyDns Query, MyDns' a = MyDns a) :
    dnsCompareName MyDns' Query = dnsCompareName MyDns Query := by
  rw [ownReads] at h
  rw [dnsCompareName, dnsCompareName]
  cases hlen : strlen Query with
  | assertFail =>
    change Outcome.assertFail = Outcome.assertFail
    rfl
  | fault =>
    change Outcome.fault = Outcome.fault
    rfl
  | ok len =>
    rw [hlen] at h
    rw [Outcome.ok_bind, Outcome.ok_bind]
    by_cases hlong : sub32 len 1 > 32
    · rw [if_pos hlong, if_pos hlong]
    · simp only at h
      rw [if_neg hlong] at h
      rw [if_neg hlong, if_neg hlong, compareLabels_reads _ _ _ rfl h]

theorem labelReads_inside (MyDns : Int → UInt8) : ∀ (n : Nat) (my : Int) (Query : List UInt8),
    ∀ a ∈ labelReads MyDns my n Query, my ≤ a ∧ a < my + n := by
  intro n
  induction n with
  | zero => intro my Query a ha; cases ha
  | succ n ih =>
    intro my Query a ha
    cases Query with
    | nil =>
      rw [List.mem_singleton.mp ha]
      omega
    | cons b Query =>
      rw [labelReads] at ha
      rcases List.mem_cons.mp ha with rfl | ha
      · omega
      · split at ha
        · cases ha
        · have hnext := ih _ _ a ha
          omega

end

/-! ### Well-formed names -/

section

variable {MyDns MyDns' : Int → UInt8} {own : List UInt8} {labels : List (List UInt8)}

theorem encodeName_cons (l : List UInt8) (ls : List (List UInt8)) :
    encodeName (l :: ls) = UInt8.ofNat l.length :: (l ++ encodeName ls) := rfl

theorem dotted_cons {ls : List (List UInt8)} (h : ls ≠ []) (l : List UInt8) :
    dotted (l :: ls) = l ++ dot :: dotted ls := by
  cases ls with
  | nil => exact absurd rfl h
  | cons l' ls => rw [dotted]

theorem length_encodeName (h : labels ≠ []) :
    (encodeName labels).length = (dotted labels).length + 1 := by
  induction labels with
  | nil => exact absurd rfl h
  | cons l ls ih =>
    by_cases hls : ls = []
    · subst hls
      rw [encodeName_cons, dotted, encodeName, List.flatMap_nil, List.append_nil, List.length_cons]
    · rw [encodeName_cons, dotted_cons hls, List.length_cons, List.length_append, ih hls,
        List.length_append, List.length_cons]

theorem IsLabel.sized {l : List UInt8} (h : IsLabel l) : 1 ≤ l.length ∧ l.length ≤ 63 :=
  ⟨h.1, h.2.1⟩

/-- The length byte of a label is neither the terminator nor a pointer. -/
theorem plain_length {l : List UInt8} (h : 1 ≤ l.length ∧ l.length ≤ 63) :
    (UInt8.ofNat l.length).toNat = l.length ∧ UInt8.ofNat l.length ≠ 0 ∧
      UInt8.ofNat l.length &&& 0xc0 ≠ 0xc0 := by
  obtain ⟨h1, h63⟩ := h
  have hn : (UInt8.ofNat l.length).toNat = l.length := by
    rw [UInt8.toNat_ofNat']
    omega
  refine ⟨hn, fun h0 => ?_, fun h0 => ?_⟩
  · have hz := congrArg UInt8.toNat h0
    rw [hn] at hz
    have h00 : (0 : UInt8).toNat = 0 := rfl
    omega
  · have hc := congrArg UInt8.toNat h0
    rw [UInt8.toNat_and, hn] at hc
    have hle := Nat.and_le_left (n := l.length) (m := (0xc0 : UInt8).toNat)
    have h192 : (0xc0 : UInt8).toNat = 192 := rfl
    omega

theorem nulFree_encodeName (h : ∀ l ∈ labels, IsLabel l) : (0 : UInt8) ∉ encodeName labels := by
  intro h0
  obtain ⟨l, hl, h0⟩ := List.mem_flatMap.mp h0
  rcases List.mem_cons.mp h0 with h0 | h0
  · exact (plain_length (h l hl).sized).2.1 h0.symm
  · exact (h l hl).2.2 h0

theorem encodeName_head (rest : List UInt8) (hne : labels ≠ [])
    (h : ∀ l ∈ labels, 1 ≤ l.length ∧ l.length ≤ 63) :
    ∃ b tail, encodeName labels ++ 0 :: rest = b :: tail ∧ b ≠ 0 := by
  cases labels with
  | nil => exact absurd rfl hne
  | cons l ls => exact ⟨_, _, rfl, (plain_length (h l List.mem_cons_self)).2.1⟩

/-- How the comparison of a whole label ends. -/
theorem compareLabel_exact (MyDns : Int → UInt8) (l rest : List UInt8) (my : Int) :
    (Agree MyDns my l ∧ compareLabel MyDns my l.length (l ++ rest) = .ok (some rest)) ∨
      (¬Agree MyDns my l ∧ compareLabel MyDns my l.length (l ++ rest) = .ok none) := by
  by_cases h : Agree MyDns my l
  · exact Or.inl ⟨h, compareLabel_agree rest h⟩
  · rcases compareLabel_cases MyDns l.length my (l ++ rest) with
      ⟨hlen, -⟩ | ⟨label, rest', heq, hlen, ha, -⟩ | ⟨-, hc⟩
    · rw [List.length_append] at hlen
      omega
    · obtain ⟨rfl, -⟩ := List.append_inj heq hlen.symm
      exact absurd ha h
    · exact Or.inr ⟨h, hc⟩

/-- **The comparison of a name**, and what it reads: the characters of the labels, and behind labels
that agree one more. -/
theorem compareLabels_encoded (MyDns : Int → UInt8) (rest : List UInt8) :
    ∀ (labels : List (List UInt8)) (my : Int),
    labels ≠ [] → (∀ l ∈ labels, 1 ≤ l.length ∧ l.length ≤ 63) →
      (LabelsAgree MyDns my labels ∧
        compareLabels MyDns my (encodeName labels ++ 0 :: rest) =
          .ok (atEnd MyDns (my + (dotted labels).length + 1)) ∧
        (∀ a ∈ nameReads MyDns my (encodeName labels ++ 0 :: rest),
          my ≤ a ∧ a ≤ my + (dotted labels).length) ∧
        my + (dotted labels).length ∈ nameReads MyDns my (encodeName labels ++ 0 :: rest)) ∨
      (¬LabelsAgree MyDns my labels ∧
        compareLabels MyDns my (encodeName labels ++ 0 :: rest) = .ok 1 ∧
        ∀ a ∈ nameReads MyDns my (encodeName labels ++ 0 :: rest),
          my ≤ a ∧ a < my + (dotted labels).length) := by
  intro labels
  induction labels with
  | nil => intro my h; exact absurd rfl h
  | cons l ls ih =>
    intro my _ hlabels
    obtain ⟨hn, -, hplain⟩ := plain_length (hlabels l List.mem_cons_self)
    have hrest : encodeName (l :: ls) ++ 0 :: rest =
        UInt8.ofNat l.length :: (l ++ (encodeName ls ++ 0 :: rest)) := by
      rw [encodeName_cons, List.cons_append, List.append_assoc]
    have hle : l.length ≤ (dotted (l :: ls)).length := by
      by_cases hls : ls = []
      · subst hls
        exact Nat.le_refl _
      · rw [dotted_cons hls, List.length_append]
        omega
    rw [hrest, compareLabels_cons, nameReads_cons, if_neg hplain, if_neg hplain, hn]
    rcases compareLabel_exact MyDns l (encodeName ls ++ 0 :: rest) my with
      ⟨ha, hc⟩ | ⟨ha, hc⟩
    · rw [hc]
      have hin := labelReads_inside MyDns l.length my (l ++ (encodeName ls ++ 0 :: rest))
      by_cases hls : ls = []
      · left
        subst hls
        have hend : my + (l.length : Int) + 1 - 1 = my + l.length := by omega
        simp only [encodeName, List.flatMap_nil, List.nil_append, dotted, hend, ne_eq, not_true,
          if_false] at hin ⊢
        refine ⟨⟨ha, trivial⟩, trivial, fun a hmem => ?_, ?_⟩
        · rcases List.mem_append.mp hmem with hmem | hmem
          · have hlt := hin a hmem
            omega
          · rw [List.mem_singleton.mp hmem]
            omega
        · exact List.mem_append_right _ (List.mem_singleton.mpr rfl)
      · obtain ⟨b, tail, hhead, hb⟩ := encodeName_head rest hls fun x hx =>
          hlabels x (List.mem_cons_of_mem _ hx)
        have hlen : (dotted (l :: ls)).length = l.length + 1 + (dotted ls).length := by
          rw [dotted_cons hls, List.length_append, List.length_cons]
          omega
        have hnext := ih (my + l.length + 1) hls fun x hx => hlabels x (List.mem_cons_of_mem _ hx)
        rw [hhead] at hnext hin ⊢
        simp only
        rw [if_pos hb, if_pos hb, hlen]
        rcases hnext with ⟨hls', hcmp, hreads, hmem⟩ | ⟨hls', hcmp, hreads⟩
        · left
          have hplace : my + (l.length : Int) + 1 + (dotted ls).length =
              my + ((l.length + 1 + (dotted ls).length : Nat) : Int) := by omega
          rw [hplace] at hcmp hreads hmem
          refine ⟨⟨ha, hls'⟩, hcmp, fun a hmem' => ?_, List.mem_append_right _ hmem⟩
          rcases List.mem_append.mp hmem' with hmem' | hmem'
          · have hlt := hin a hmem'
            omega
          · have hlt := hreads a hmem'
            omega
        · right
          refine ⟨fun h => hls' h.2, hcmp, fun a hmem' => ?_⟩
          rcases List.mem_append.mp hmem' with hmem' | hmem'
          · have hlt := hin a hmem'
            omega
          · have hlt := hreads a hmem'
            omega
    · right
      rw [hc]
      refine ⟨fun h => ha h.1, rfl, fun a hmem => ?_⟩
      rw [List.append_nil] at hmem
      have hlt := labelReads_inside _ _ _ _ a hmem
      omega

/-! ### The own name in memory -/

theorem agree_append {xs ys : List UInt8} : ∀ {my : Int}, Agree MyDns my (xs ++ ys) ↔
    Agree MyDns my xs ∧ Agree MyDns (my + xs.length) ys := by
  induction xs with
  | nil =>
    intro my
    rw [List.nil_append, List.length_nil, Int.natCast_zero, Int.add_zero]
    exact ⟨fun h => ⟨trivial, h⟩, fun h => h.2⟩
  | cons x xs ih =>
    intro my
    have hplace : my + 1 + (xs.length : Int) = my + ((x :: xs).length : Int) := by
      rw [List.length_cons]
      omega
    rw [List.cons_append, Agree, Agree, ih, hplace, and_assoc]

theorem agree_congr {bs : List UInt8} : ∀ {my : Int},
    (∀ a, my ≤ a → a < my + bs.length → MyDns' a = MyDns a) → Agree MyDns my bs →
      Agree MyDns' my bs := by
  induction bs with
  | nil => intro my _ _; trivial
  | cons b bs ih =>
    intro my h ha
    rw [List.length_cons] at h
    refine ⟨?_, ih (fun a h1 h2 => h a (by omega) (by omega)) ha.2⟩
    rw [h my (by omega) (by omega)]
    exact ha.1

theorem labelsAgree_congr : ∀ {labels : List (List UInt8)} {my : Int},
    (∀ a, my ≤ a → a < my + (dotted labels).length → MyDns' a = MyDns a) →
      LabelsAgree MyDns my labels → LabelsAgree MyDns' my labels := by
  intro labels
  induction labels with
  | nil => intro my _ _; trivial
  | cons l ls ih =>
    intro my h ha
    by_cases hls : ls = []
    · subst hls
      exact ⟨agree_congr h ha.1, trivial⟩
    · rw [dotted_cons hls, List.length_append, List.length_cons] at h
      exact ⟨agree_congr (fun a h1 h2 => h a h1 (by omega)) ha.1,
        ih (fun a h1 h2 => h a (by omega) (by omega)) ha.2⟩

theorem labelsAgree_of_agree : ∀ {labels : List (List UInt8)} {my : Int},
    Agree MyDns my (dotted labels) → LabelsAgree MyDns my labels := by
  intro labels
  induction labels with
  | nil => intro my _; trivial
  | cons l ls ih =>
    intro my h
    by_cases hls : ls = []
    · subst hls
      exact ⟨h, trivial⟩
    · rw [dotted_cons hls, agree_append] at h
      exact ⟨h.1, ih h.2.2⟩

theorem forall₂_iff_agree {d s : List UInt8} : ∀ {my : Int},
    (∀ k : Nat, MyDns (my + k) = s.getD k 0) →
      (List.Forall₂ SameLetter d s ↔ s.length = d.length ∧ Agree MyDns my d) := by
  induction d generalizing s with
  | nil =>
    intro my _
    rw [List.forall₂_nil_left_iff]
    exact ⟨fun h => ⟨congrArg List.length h, trivial⟩, fun h => List.eq_nil_of_length_eq_zero h.1⟩
  | cons b d ih =>
    intro my h
    cases s with
    | nil => exact iff_of_false (fun h => by cases h) fun h => by cases h.1
    | cons c s =>
      have hhead : MyDns my = c := by
        have h0 := h 0
        rwa [Int.natCast_zero, Int.add_zero] at h0
      have htail : ∀ k : Nat, MyDns (my + 1 + k) = s.getD k 0 := by
        intro k
        have hk := h (k + 1)
        rw [List.getD_cons_succ] at hk
        rw [← hk]
        congr 1
        omega
      rw [List.forall₂_cons, ih htail, Agree, hhead, List.length_cons, List.length_cons,
        Nat.add_right_cancel_iff, eq_comm (a := nstToUpper c), nstToUpper_eq_iff]
      exact and_left_comm

theorem sameName_iff : SameName (dotted labels) own ↔
    own.length = (dotted labels).length ∧ Agree (ownMem own) 0 (dotted labels) := by
  refine forall₂_iff_agree fun k => ?_
  rw [Int.zero_add, ownMem, Int.toNat_natCast]

/-- The same name fits. -/
theorem fits_of_sameName (h : SameName (dotted labels) own) : Fits own labels := by
  obtain ⟨hlen, ha⟩ := sameName_iff.mp h
  exact ⟨hlen, labelsAgree_of_agree ha⟩

theorem agree_last {l : List UInt8} (h0 : (0 : UInt8) ∉ l) : ∀ {my : Int}, 1 ≤ l.length →
    Agree MyDns my l → MyDns (my + l.length - 1) ≠ 0 := by
  induction l with
  | nil => intro my h; exact absurd h (by decide)
  | cons b l ih =>
    intro my _ ha
    have hb : b ≠ 0 := fun hb => h0 (hb ▸ List.mem_cons_self)
    by_cases hl : l = []
    · subst hl
      have hplace : my + (([b] : List UInt8).length : Int) - 1 = my := by
        rw [List.length_singleton]
        omega
      rw [hplace]
      intro hz
      have hsame := ha.1
      rw [hz, eq_comm, nstToUpper_eq_iff] at hsame
      exact hb hsame.zero_right
    · have hpos := List.length_pos_iff.mpr hl
      have hlast := ih (fun h => h0 (List.mem_cons_of_mem _ h)) hpos ha.2
      have hplace : my + 1 + (l.length : Int) - 1 = my + ((b :: l).length : Int) - 1 := by
        rw [List.length_cons]
        omega
      rwa [hplace] at hlast

theorem labelsAgree_last : ∀ {labels : List (List UInt8)} {my : Int}, labels ≠ [] →
    (∀ l ∈ labels, IsLabel l) → LabelsAgree MyDns my labels →
      MyDns (my + (dotted labels).length - 1) ≠ 0 := by
  intro labels
  induction labels with
  | nil => intro my h; exact absurd rfl h
  | cons l ls ih =>
    intro my _ hl ha
    obtain ⟨h1, -, h0⟩ := hl l List.mem_cons_self
    by_cases hls : ls = []
    · subst hls
      exact agree_last h0 h1 ha.1
    · have hlast := ih hls (fun x hx => hl x (List.mem_cons_of_mem _ hx)) ha.2
      have hplace : my + (l.length : Int) + 1 + (dotted ls).length - 1 =
          my + (dotted (l :: ls)).length - 1 := by
        rw [dotted_cons hls, List.length_append, List.length_cons]
        omega
      rwa [hplace] at hlast

theorem Holds.eq_ownMem (hh : Holds own MyDns) {a : Int} (h0 : 0 ≤ a) (h : a < 32) :
    MyDns a = ownMem own a := by
  obtain ⟨k, rfl⟩ := Int.eq_ofNat_of_zero_le h0
  rw [hh.eq k (by omega), ownMem, Int.toNat_natCast]

/-- Agreement in `DnsName` and with the own name. -/
theorem Holds.fits_iff (hh : Holds own MyDns) (hL : (dotted labels).length ≤ 32) :
    Fits own labels ↔ own.length = (dotted labels).length ∧ LabelsAgree MyDns 0 labels := by
  refine and_congr_right fun _ => ⟨?_, ?_⟩
  · exact labelsAgree_congr fun a h1 h2 => hh.eq_ownMem h1 (by omega)
  · exact labelsAgree_congr fun a h1 h2 => (hh.eq_ownMem h1 (by omega)).symm

theorem getD_eq_zero_iff (h0 : (0 : UInt8) ∉ own) (k : Nat) :
    own.getD k 0 = 0 ↔ own.length ≤ k := by
  by_cases hk : k < own.length
  · rw [List.getD_eq_getElem _ _ hk]
    exact iff_of_false (fun h => h0 (h ▸ List.getElem_mem hk)) (by omega)
  · rw [List.getD_eq_default _ _ (by omega)]
    exact iff_of_true rfl (by omega)

/-- Labels that agree do not end behind the own name. -/
theorem Holds.length_le_of_agree (hh : Holds own MyDns) (h0 : (0 : UInt8) ∉ own)
    (hne : labels ≠ []) (hl : ∀ l ∈ labels, IsLabel l) (hL : (dotted labels).length ≤ 32)
    (ha : LabelsAgree MyDns 0 labels) : (dotted labels).length ≤ own.length := by
  have hlast := labelsAgree_last hne hl ha
  by_contra hlt
  have hplace : (0 : Int) + (dotted labels).length - 1 =
      (((dotted labels).length - 1 : Nat) : Int) := by omega
  rw [hplace, hh.eq _ (by omega)] at hlast
  exact hlast ((getD_eq_zero_iff h0 _).mpr (by omega))

/-! ### When the comparison is exact -/

/-- The comparison says whether the names are the same, whatever follows the query name, and it
reads neither behind the query name nor outside the 32 bytes of `DnsName`. -/
structure NameExact (srv : DnsServer) (own : List UInt8) (labels : List (List UInt8)) : Prop where
  answer : ∀ rest, ∃ ret, dnsCompareName srv.DnsName (encodeName labels ++ 0 :: rest) = .ok ret ∧
    (ret = 0 ↔ SameName (dotted labels) own)
  inside : ∀ a ∈ ownReads srv.DnsName (encodeName labels ++ [0]), 0 ≤ a ∧ a < 32

theorem sub32_length (h : (encodeName labels).length < 2 ^ 32) (hne : labels ≠ []) :
    sub32 (encodeName labels).length 1 > 32 ↔ 32 < (dotted labels).length := by
  rw [length_encodeName hne] at h ⊢
  rw [sub32]
  omega

theorem compareName_long (hne : labels ≠ []) (hl : ∀ l ∈ labels, IsLabel l)
    (h32 : (encodeName labels).length < 2 ^ 32) (hL : 32 < (dotted labels).length)
    (rest : List UInt8) :
    dnsCompareName MyDns (encodeName labels ++ 0 :: rest) = .ok 1 ∧
      ownReads MyDns (encodeName labels ++ 0 :: rest) = [] := by
  have hlong := (sub32_length h32 hne).mpr hL
  rw [dnsCompareName, ownReads, strlen_append rest (nulFree_encodeName hl), Outcome.ok_bind,
    if_pos hlong]
  exact ⟨rfl, if_pos hlong⟩

theorem compareName_short (MyDns : Int → UInt8) (hne : labels ≠ []) (hl : ∀ l ∈ labels, IsLabel l)
    (h32 : (encodeName labels).length < 2 ^ 32) (hL : (dotted labels).length ≤ 32)
    (rest : List UInt8) :
    dnsCompareName MyDns (encodeName labels ++ 0 :: rest) =
        compareLabels MyDns 0 (encodeName labels ++ 0 :: rest) ∧
      ownReads MyDns (encodeName labels ++ 0 :: rest) =
        nameReads MyDns 0 (encodeName labels ++ 0 :: rest) := by
  have hshort := mt (sub32_length h32 hne).mp (Nat.not_lt.mpr hL)
  rw [dnsCompareName, ownReads, strlen_append rest (nulFree_encodeName hl), Outcome.ok_bind,
    if_neg hshort]
  exact ⟨rfl, if_neg hshort⟩

/-- **What `_DnsCompareName` returns** for a name of at most 32 characters. -/
theorem compareName_eq (MyDns : Int → UInt8) (hne : labels ≠ []) (hl : ∀ l ∈ labels, IsLabel l)
    (h32 : (encodeName labels).length < 2 ^ 32) (hL : (dotted labels).length ≤ 32)
    (rest : List UInt8) :
    ∃ ret, dnsCompareName MyDns (encodeName labels ++ 0 :: rest) = .ok ret ∧
      (ret = 0 ↔ LabelsAgree MyDns 0 labels ∧ MyDns (dotted labels).length = 0) ∧
      ((∀ a ∈ ownReads MyDns (encodeName labels ++ 0 :: rest), 0 ≤ a ∧ a < 32) ↔
        ¬(LabelsAgree MyDns 0 labels ∧ (dotted labels).length = 32)) := by
  obtain ⟨hcmp, hown⟩ := compareName_short MyDns hne hl h32 hL rest
  rw [hcmp, hown]
  rcases compareLabels_encoded MyDns rest labels 0 hne fun l h => (hl l h).sized with
    ⟨ha, heq, hin, hmem⟩ | ⟨ha, heq, hin⟩
  · have hplace : (0 : Int) + (dotted labels).length + 1 - 1 = (dotted labels).length := by omega
    refine ⟨_, heq, ?_, ?_⟩
    · rw [atEnd, hplace]
      split
      · rename_i hz
        exact iff_of_true rfl ⟨ha, hz⟩
      · rename_i hz
        exact iff_of_false (by decide) fun h => hz h.2
    · constructor
      · rintro h ⟨-, h32'⟩
        have hlt := (h _ hmem).2
        omega
      · intro h a hmem'
        have hne32 : (dotted labels).length ≠ 32 := fun h32' => h ⟨ha, h32'⟩
        have hlt := hin a hmem'
        omega
  · refine ⟨1, heq, iff_of_false (by decide) fun h => ha h.1, iff_of_true ?_ fun h => ha h.1⟩
    intro a hmem
    have hlt := hin a hmem
    omega

theorem Holds.end_iff (hh : Holds own MyDns) (h0 : (0 : UInt8) ∉ own)
    (hL : (dotted labels).length < 32) :
    MyDns (dotted labels).length = 0 ↔ own.length ≤ (dotted labels).length := by
  rw [hh.eq _ hL, getD_eq_zero_iff h0]

end

/-- **When the comparison of names is exact**: if a configured name with the length and the label
characters of the query is shorter than `DnsName`, and is the dotted query. -/
theorem compareName_exact_iff {own : List UInt8} {srv : DnsServer} {labels : List (List UInt8)}
    (hacc : Accepted own srv) (h0 : (0 : UInt8) ∉ own) (hne : labels ≠ [])
    (hl : ∀ l ∈ labels, IsLabel l) (h32 : (encodeName labels).length < 2 ^ 32) :
    NameExact srv own labels ↔
      (Fits own labels → own.length < 32 ∧ SameName (dotted labels) own) := by
  have hh := hacc.holds
  by_cases hL : 32 < (dotted labels).length
  · -- a long name is refused unread, and is not the own one
    have hlen := hh.length_le
    have hnot : ¬Fits own labels := fun h => by
      have heq := h.1
      omega
    refine iff_of_true ⟨fun rest => ⟨1, (compareName_long hne hl h32 hL rest).1, ?_⟩, ?_⟩
      fun h => absurd h hnot
    · exact iff_of_false (by decide) fun h => hnot (fits_of_sameName h)
    · rw [(compareName_long hne hl h32 hL []).2]
      intro a ha
      cases ha
  have hL' := Nat.le_of_not_lt hL
  have hfits := hh.fits_iff hL'
  have hle := hh.length_le_of_agree h0 hne hl hL'
  have hcap := hh.length_le
  by_cases hfull : (dotted labels).length = 32
  · by_cases ha : LabelsAgree srv.DnsName 0 labels
    · -- the terminator is looked for behind the array
      have hlen := hle ha
      have hf : Fits own labels := hfits.mpr ⟨by omega, ha⟩
      refine iff_of_false (fun h => ?_) fun h => ?_
      · obtain ⟨_, -, -, hin⟩ := compareName_eq srv.DnsName hne hl h32 hL' []
        exact hin.mp h.inside ⟨ha, hfull⟩
      · have hlt := (h hf).1
        omega
    · have hnot : ¬Fits own labels := fun h => ha (hfits.mp h).2
      refine iff_of_true ⟨fun rest => ?_, ?_⟩ fun h => absurd h hnot
      · obtain ⟨ret, hret, hzero, -⟩ := compareName_eq srv.DnsName hne hl h32 hL' rest
        exact ⟨ret, hret, iff_of_false (fun h => ha (hzero.mp h).1)
          fun h => hnot (fits_of_sameName h)⟩
      · obtain ⟨_, -, -, hin⟩ := compareName_eq srv.DnsName hne hl h32 hL' []
        exact hin.mpr fun h => ha h.1
  · have hLt : (dotted labels).length < 32 := by omega
    have hend := hh.end_iff h0 hLt
    have hzero : (LabelsAgree srv.DnsName 0 labels ∧ srv.DnsName (dotted labels).length = 0) ↔
        Fits own labels := by
      rw [hfits, hend]
      constructor
      · rintro ⟨ha, hge⟩
        exact ⟨Nat.le_antisymm hge (hle ha), ha⟩
      · rintro ⟨heq, ha⟩
        exact ⟨ha, Nat.le_of_eq heq⟩
    constructor
    · intro h hf
      have hlen := hf.1
      obtain ⟨ret, hret, hsame⟩ := h.answer []
      obtain ⟨ret', hret', hz, -⟩ := compareName_eq srv.DnsName hne hl h32 hL' []
      rw [hret] at hret'
      cases hret'
      exact ⟨by omega, hsame.mp (hz.mpr (hzero.mpr hf))⟩
    · intro h
      refine ⟨fun rest => ?_, ?_⟩
      · obtain ⟨ret, hret, hz, -⟩ := compareName_eq srv.DnsName hne hl h32 hL' rest
        refine ⟨ret, hret, hz.trans (hzero.trans ⟨fun hf => (h hf).2, fits_of_sameName⟩)⟩
      · obtain ⟨_, -, -, hin⟩ := compareName_eq srv.DnsName hne hl h32 hL' []
        exact hin.mpr fun hc => hfull hc.2

/-- The configured names `nl.cn` and `nl-cn`. -/
def dotName : List UInt8 := [110, 108, 46, 99, 110]

def dashName : List UInt8 := [110, 108, 45, 99, 110]

/-- The labels of a query for `NL.cn`. -/
def queryLabels : List (List UInt8) := [[78, 76], [99, 110]]

def namedServer (own : List UInt8) : DnsServer := ⟨putName own fun _ => 0, 192, 168, 1, 1⟩

theorem accepted_namedServer {own : List UInt8} (h : own.length ≤ 32) :
    Accepted own (namedServer own) :=
  Or.inl ⟨⟨fun _ => 0, 192, 168, 1, 1⟩, if_neg (Nat.not_lt.mpr h)⟩

theorem isLabel_queryLabels : ∀ l ∈ queryLabels, IsLabel l := by
  intro l hl
  simp only [queryLabels, List.mem_cons, List.not_mem_nil, or_false] at hl
  rcases hl with rfl | rfl
  · exact ⟨by decide, by decide, by decide⟩
  · exact ⟨by decide, by decide, by decide⟩

theorem compareName_exact_iff_dots :
    NameExact (namedServer dotName) dotName queryLabels ↔
      (Fits dotName queryLabels → dotName.length < 32 ∧ SameName (dotted queryLabels) dotName) :=
  compareName_exact_iff (accepted_namedServer (by decide)) (by decide) (List.cons_ne_nil _ _)
    isLabel_queryLabels (by decide)

/-- The name `nl-cn` is found in a query for `NL.cn`. -/
theorem separator_ignored : ∃ own srv labels, Accepted own srv ∧ (0 : UInt8) ∉ own ∧ labels ≠ [] ∧
    (∀ l ∈ labels, IsLabel l) ∧ ¬NameExact srv own labels := by
  have hne : queryLabels ≠ [] := List.cons_ne_nil _ _
  refine ⟨dashName, namedServer dashName, queryLabels, accepted_namedServer (by decide),
    by decide, hne, isLabel_queryLabels, fun h => ?_⟩
  obtain ⟨ret, hret, hsame⟩ := h.answer []
  obtain ⟨ret', hret', hz, -⟩ := compareName_eq (namedServer dashName).DnsName hne
    isLabel_queryLabels (by decide) (by decide) []
  rw [hret] at hret'
  cases hret'
  have hagree : LabelsAgree (namedServer dashName).DnsName 0 queryLabels :=
    ⟨⟨rfl, rfl, trivial⟩, ⟨rfl, rfl, trivial⟩, trivial⟩
  have hname := hsame.mp (hz.mpr ⟨hagree, rfl⟩)
  have hdot : nstToUpper 45 = nstToUpper 46 := (sameName_iff.mp hname).2.2.2.1
  exact absurd hdot (by decide)

end Nl6621.Dns
