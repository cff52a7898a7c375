import Nl6621.Cloud.Loop
import Nl6621.Edp.RemainLen

/-!
# One receive buffer, packet by packet

A receive buffer may hold several packets and the beginning of one more.  `receive_framing` says
that `GetEdpPacket` takes the packets out one by one, as they came, and leaves the rest; and that
the loop of `recv_data_process` ends on every content of the buffer.

Both are said without a number of rounds.  `Extracts` holds when repeated calls of `GetEdpPacket`
have come to the one that returns 0, and `Finishes` when the loop has come to its end; neither can
hold of a loop that goes on for ever.  What carries the two inductions is that a packet is never
empty, so that the rest is shorter.
-/

namespace Nl6621.Cloud

open Lib Edp

/-- A type byte, a length field of one to four digits and as many bytes as the field says. -/
def IsPacket (f : List UInt8) : Prop := ∃ t body, IsFrame f t body

/-- `GetEdpPacket` is called until it returns 0: the packets, and the buffer in the end. -/
inductive Extracts : Buffer → List Buffer → Buffer → Prop where
  | done {buf buf' : Buffer} (h : getEdpPacket buf = .ok (none, buf')) : Extracts buf [] buf'
  | packet {buf buf' buf'' pkg : Buffer} {pkgs : List Buffer}
      (h : getEdpPacket buf = .ok (some pkg, buf')) (hrest : Extracts buf' pkgs buf'') :
      Extracts buf (pkg :: pkgs) buf''

/-- The loop of `recv_data_process` on `buf` comes to its end. -/
inductive Finishes {J : Type} (env : Env J) : Buffer → Task J → Run J → Prop where
  | needMore {buf buf' : Buffer} {t : Task J} (h : getEdpPacket buf = .ok (none, buf')) :
      Finishes env buf t ⟨t, .needMore⟩
  | packet {buf buf' pkg : Buffer} {t t' : Task J} {s : Except Int Unit × Buffer} {r : Run J}
      (h : getEdpPacket buf = .ok (some pkg, buf'))
      (hp : handlePacket env (pkg, t.dispatch pkg) = .ok (s.1, (s.2, t')))
      (hrest : Finishes env buf' t' r) : Finishes env buf t r
  | assertFail {buf buf' pkg : Buffer} {t : Task J} (h : getEdpPacket buf = .ok (some pkg, buf'))
      (hp : handlePacket env (pkg, t.dispatch pkg) = .assertFail) :
      Finishes env buf t ⟨t.dispatch pkg, .assertFail⟩
  | fault {buf buf' pkg : Buffer} {t : Task J} (h : getEdpPacket buf = .ok (some pkg, buf'))
      (hp : handlePacket env (pkg, t.dispatch pkg) = .fault) :
      Finishes env buf t ⟨t.dispatch pkg, .fault⟩

/-! ### Packets in a byte list -/

theorem frameLen_of_isPacket {f : List UInt8} (h : IsPacket f) (rest : List UInt8) :
    frameLen (f ++ rest) = f.length := by
  obtain ⟨t, body, tl, rfl, hd⟩ := h
  obtain ⟨ds, rfl, -, -, -, hall⟩ := decodeLen_done 3 tl _ _ hd
  have hlong : decodeLen 3 (ds ++ (body ++ rest)) = .done body.length (body ++ rest) := hall _
  simp only [List.cons_append, List.append_assoc, frameLen, hlong, List.length_append,
    List.length_cons]
  rw [if_pos (by omega)]
  congr 1
  omega

theorem length_pos_of_isPacket {f : List UInt8} (h : IsPacket f) : 0 < f.length := by
  obtain ⟨t, body, tl, rfl, -⟩ := h
  exact Nat.succ_pos _

/-- Without a packet as a prefix there is nothing to take out. -/
theorem frameLen_nonpos {bs : List UInt8} (h : ∀ p, p <+: bs → ¬IsPacket p) : frameLen bs ≤ 0 := by
  by_contra hpos
  obtain ⟨t, body, hf⟩ := isFrame_take (not_le.mp hpos)
  exact h _ (List.take_prefix _ _) ⟨t, body, hf⟩

/-! ### The two loops -/

/-- The packets come out one by one; the induction is on their list. -/
theorem extracts_frames : ∀ (fs : List (List UInt8)) {tail : List UInt8} {buf : Buffer},
    (∀ f ∈ fs, IsPacket f) → frameLen tail ≤ 0 → Received buf (fs.flatten ++ tail) →
    (fs.flatten ++ tail).length < 2 ^ 16 →
    ∃ pkgs buf', Extracts buf pkgs buf' ∧ List.Forall₂ Filled pkgs fs ∧ Received buf' tail := by
  intro fs
  induction fs with
  | nil =>
    intro tail buf _ htail h _
    exact ⟨[], buf, .done (getEdpPacket_none h htail), .nil, h⟩
  | cons f fs ih =>
    intro tail buf hfs htail h hsize
    have hf : IsPacket f := hfs f List.mem_cons_self
    have hbs : (f :: fs).flatten ++ tail = f ++ (fs.flatten ++ tail) := by
      rw [List.flatten_cons, List.append_assoc]
    rw [hbs] at h hsize
    have hlen : frameLen (f ++ (fs.flatten ++ tail)) = f.length := frameLen_of_isPacket hf _
    have hpos : 0 < frameLen (f ++ (fs.flatten ++ tail)) := by
      rw [hlen]
      exact Int.natCast_pos.mpr (length_pos_of_isPacket hf)
    obtain ⟨pkg, buf₁, hget, hpkg, -, hrest⟩ := getEdpPacket_some h hpos
    rw [hlen, Int.toNat_natCast] at hpkg hrest
    rw [List.take_left] at hpkg
    rw [List.drop_left] at hrest
    rw [List.length_append] at hsize
    have hbuf₁ : Received buf₁ (fs.flatten ++ tail) := by
      apply hrest
      rw [List.length_append]
      omega
    obtain ⟨pkgs, buf', hex, hall, hr⟩ := ih (fun g hg => hfs g (List.mem_cons_of_mem _ hg)) htail
      hbuf₁ (by omega)
    exact ⟨pkg :: pkgs, buf', .packet hget hex, .cons hpkg hall, hr⟩

/-- With more rounds than bytes the loop comes to its end. -/
theorem finishes_recvLoop {J : Type} (env : Env J) : ∀ (k : Nat) {bs : List UInt8} {buf : Buffer}
    (t : Task J), Received buf bs → bs.length < 2 ^ 16 → bs.length < k →
    Finishes env buf t (recvLoop env k buf t) := by
  intro k
  induction k with
  | zero =>
    intro bs buf t _ _ hk
    omega
  | succ k ih =>
    intro bs buf t h hsize hk
    by_cases hpos : 0 < frameLen bs
    · obtain ⟨pkg, buf', hget, -, -, hrest⟩ := getEdpPacket_some h hpos
      have hshort := length_drop_frameLen hpos
      have hbuf' : Received buf' (bs.drop (frameLen bs).toNat) := hrest (by omega)
      simp only [recvLoop, hget]
      cases hp : handlePacket env (pkg, t.dispatch pkg) with
      | ok s =>
        obtain ⟨e, buf₁, t'⟩ := s
        exact .packet (s := (e, buf₁)) hget hp (ih t' hbuf' (by omega) (by omega))
      | assertFail => exact .assertFail hget hp
      | fault => exact .fault hget hp
    · have hget := getEdpPacket_none h (not_lt.mp hpos)
      simp only [recvLoop, hget]
      exact .needMore hget

/-- **Framing of one receive buffer.**  The packets of a buffer are taken out as they came, the
incomplete rest stays in it, and on every content the loop of `recv_data_process` ends. -/
theorem receive_framing {J : Type} (env : Env J) {fs : List (List UInt8)} {tail : List UInt8}
    {buf : Buffer} (hfs : ∀ f ∈ fs, IsPacket f) (htail : ∀ p, p <+: tail → ¬IsPacket p)
    (hbuf : Received buf (fs.flatten ++ tail))
    (hsize : (fs.flatten ++ tail).length ≤ cloudRecvBufferSize) {chunk : List UInt8}
    (hchunk : chunk.length ≤ cloudRecvBufferSize) (t : Task J) :
    (∃ pkgs buf', Extracts buf pkgs buf' ∧ List.Forall₂ Filled pkgs fs ∧ Received buf' tail) ∧
      Finishes env (recvBuffer chunk) t.enter (recvDataProcess env chunk t) := by
  have h16 : cloudRecvBufferSize < 2 ^ 16 := by decide
  refine ⟨?_, ?_⟩
  · exact extracts_frames fs hfs (frameLen_nonpos htail) hbuf (by omega)
  · exact finishes_recvLoop env _ _ (received_recvBuffer chunk (by omega)) (by omega)
      (Nat.lt_succ_self _)

/-- Two `PINGRESP` and the first byte of a third packet. -/
theorem receive_framing_pings :
    (∃ pkgs buf', Extracts (recvBuffer [0xd0, 0, 0xd0, 0, 0xd0]) pkgs buf' ∧
      List.Forall₂ Filled pkgs [[0xd0, 0], [0xd0, 0]] ∧ Received buf' [0xd0]) ∧
    Finishes quietEnv (recvBuffer [0xff, 0xff]) (Task.start ⟨0, .zero, 0⟩).enter
      (recvDataProcess quietEnv [0xff, 0xff] (Task.start ⟨0, .zero, 0⟩)) := by
  have hping : IsPacket [0xd0, 0] := ⟨0xd0, [], [0], rfl, rfl⟩
  have hfs : ∀ f ∈ ([[0xd0, 0], [0xd0, 0]] : List (List UInt8)), IsPacket f := by
    intro f hf
    rw [List.mem_cons, List.mem_singleton, or_self] at hf
    rw [hf]
    exact hping
  have htail : ∀ p, p <+: ([0xd0] : List UInt8) → ¬IsPacket p := by
    rintro p hp ⟨t, body, tl, rfl, hd⟩
    have hlen := hp.length_le
    cases tl with
    | nil => cases hd
    | cons d tl =>
      simp only [List.length_cons, List.length_nil] at hlen
      omega
  exact receive_framing quietEnv hfs htail (received_recvBuffer _ (by decide)) (by decide)
    (by decide) _

end Nl6621.Cloud
