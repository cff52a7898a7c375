import Nl6621.Net.Client

/-!
# What the server receives

The bytes that one connection accepts are whole packets, in the order in which their senders took
the lock, and only the last of them may be cut short: `stream_integrity`.  Two things must not happen.

* A send fails in the middle of a packet and another packet is sent on the same connection.  The
  failed call gives the lock back and sets the flag, but the connection stays open until the cloud
  task comes to its test; a sender that waits for the lock gets it in between, and the cloud task
  itself repeats `CONNREQ` on the same connection.
* The connection is replaced while a sender is in the middle of a packet, which then ends on the
  new one.

`Tidy` excludes these two and nothing else.  The invariant says what the holder of the lock knows
at each place of `Socket_TCPClientSendData`, and what is true while the lock is free.
-/

namespace Nl6621.Net.Client

open Lib

/-! ### The bytes of a connection -/

namespace Call

/-- The connection on which the call sends. -/
def sendsOn : Call → Option Nat
  | .send _ _ conn _ _ => conn
  | _ => none

/-- The bytes that connection `i` accepts in the call. -/
def accepts (i : Nat) : Call → List UInt8
  | .send _ _ conn _ (some bytes) => if conn = some i then bytes else []
  | _ => []

/-- The packet for which the call takes the lock. -/
def takes : Call → List (List UInt8)
  | .take sendbuf => [sendbuf]
  | _ => []

/-- A send on connection `i` that fails in the middle of a packet. -/
def cuts (i : Nat) : Call → Prop
  | .send _ _ conn total none => conn = some i ∧ 0 < total
  | _ => False

theorem accepts_eq_nil {i : Nat} {c : Call} (h : c.sendsOn ≠ some i) : c.accepts i = [] := by
  cases c with
  | send t fd conn total bytes =>
    cases bytes with
    | none => rfl
    | some bytes => exact if_neg h
  | _ => rfl

theorem sendsOn_of_cuts {i : Nat} {c : Call} (h : c.cuts i) : c.sendsOn = some i := by
  cases c with
  | send t fd conn total bytes =>
    cases bytes with
    | none => exact h.1
    | some bytes => exact h.elim
  | _ => exact h.elim

end Call

def accepted (i : Nat) (calls : List Call) : List UInt8 := calls.flatMap (Call.accepts i)

/-- The packets in the order of the lock. -/
def taken (calls : List Call) : List (List UInt8) := calls.flatMap Call.takes

/-- Connection `i` has accepted whole packets. -/
def Whole (i : Nat) (calls : List Call) : Prop :=
  ∃ ps : List (List UInt8), ps.Sublist (taken calls) ∧ accepted i calls = ps.flatten

/-- Connection `i` has accepted whole packets and then `total` bytes of `sendbuf`. -/
def Part (i : Nat) (sendbuf : List UInt8) (total : Nat) (calls : List Call) : Prop :=
  ∃ ps, (ps ++ [sendbuf]).Sublist (taken calls) ∧
    accepted i calls = ps.flatten ++ sendbuf.take total

/-- What the calls so far must be like. -/
structure Framing (w : World) : Prop where
  packets : ∀ i, Whole i w.calls ∨ ∃ sendbuf total, Part i sendbuf total w.calls
  /-- nothing follows a packet that was cut short -/
  last : w.calls.Pairwise fun a b => ∀ i, a.cuts i → b.accepts i = []

/-- A sender takes the lock only when no packet has been cut short on the open connection, and a
connection is made only when no sender is in the middle of a packet. -/
def Tidy (w : World) : Act → Prop
  | .sender _ .pend => ¬(w.isOpen = true ∧ w.cut = true)
  | .cloud (.socket (some _)) =>
    ∀ t f total, w.frame t = some f → f.looping total → total = 0
  | _ => True

section

variable {i : Nat} {calls : List Call} {sendbuf : List UInt8} {total : Nat} {c : Call}

theorem accepted_concat (i : Nat) (calls : List Call) (c : Call) :
    accepted i (calls ++ [c]) = accepted i calls ++ c.accepts i := by
  rw [accepted, List.flatMap_append, List.flatMap_singleton]
  rfl

theorem taken_concat (calls : List Call) (c : Call) :
    taken (calls ++ [c]) = taken calls ++ c.takes := by
  rw [taken, List.flatMap_append, List.flatMap_singleton]
  rfl

theorem accepted_eq_nil (h : ∀ c ∈ calls, c.sendsOn ≠ some i) : accepted i calls = [] :=
  List.flatMap_eq_nil_iff.mpr fun c hc => Call.accepts_eq_nil (h c hc)

theorem sublist_taken_concat {ps : List (List UInt8)} (h : ps.Sublist (taken calls)) (c : Call) :
    ps.Sublist (taken (calls ++ [c])) := by
  rw [taken_concat]
  exact h.trans (List.sublist_append_left _ _)

theorem accepted_concat_nil (hc : c.accepts i = []) :
    accepted i (calls ++ [c]) = accepted i calls := by
  rw [accepted_concat, hc, List.append_nil]

/-- A call in which `i` accepts nothing. -/
theorem Whole.call (h : Whole i calls) (hc : c.accepts i = []) : Whole i (calls ++ [c]) := by
  obtain ⟨ps, hsub, hacc⟩ := h
  exact ⟨ps, sublist_taken_concat hsub c, (accepted_concat_nil hc).trans hacc⟩

theorem Part.call (h : Part i sendbuf total calls) (hc : c.accepts i = []) :
    Part i sendbuf total (calls ++ [c]) := by
  obtain ⟨ps, hsub, hacc⟩ := h
  exact ⟨ps, sublist_taken_concat hsub c, (accepted_concat_nil hc).trans hacc⟩

/-- The lock is taken for one more packet. -/
theorem Whole.take (h : Whole i calls) (sendbuf : List UInt8) :
    Part i sendbuf 0 (calls ++ [.take sendbuf]) := by
  obtain ⟨ps, hsub, hacc⟩ := h
  refine ⟨ps, ?_, ?_⟩
  · rw [taken_concat]
    exact hsub.append_right [sendbuf]
  · rw [accepted_concat, hacc, List.take_zero]
    rfl

/-- The next bytes of the packet are accepted. -/
theorem Part.send (h : Part i sendbuf total calls) (t : Task) (fd : Int) (k : Nat) :
    Part i sendbuf (total + k)
      (calls ++ [.send t fd (some i) total (some ((sendbuf.drop total).take k))]) := by
  obtain ⟨ps, hsub, hacc⟩ := h
  refine ⟨ps, sublist_taken_concat hsub _, ?_⟩
  rw [accepted_concat, hacc, List.append_assoc, List.take_add]
  congr 2
  exact if_pos rfl

/-- All of it has been. -/
theorem Part.whole (h : Part i sendbuf sendbuf.length calls) : Whole i calls := by
  obtain ⟨ps, hsub, hacc⟩ := h
  exact ⟨ps ++ [sendbuf], hsub, by rw [hacc, List.take_length, List.flatten_concat]⟩

/-- None of it has been. -/
theorem Part.whole_of_zero (h : Part i sendbuf 0 calls) : Whole i calls := by
  obtain ⟨ps, hsub, hacc⟩ := h
  refine ⟨ps, (List.sublist_append_left _ _).trans hsub, ?_⟩
  rw [hacc, List.take_zero, List.append_nil]

theorem Part.of_fresh (h : ∀ c ∈ calls, c.sendsOn ≠ some i) (hmem : sendbuf ∈ taken calls) :
    Part i sendbuf 0 calls :=
  ⟨[], List.singleton_sublist.mpr hmem, by rw [accepted_eq_nil h]; rfl⟩

theorem Whole.of_fresh (h : ∀ c ∈ calls, c.sendsOn ≠ some i) : Whole i calls :=
  ⟨[], List.nil_sublist _, accepted_eq_nil h⟩

end

/-! ### The invariant -/

structure Sent (conn : Option Nat) (cut : Bool) (made : Nat) (calls : List Call) : Prop where
  newest : ∀ i, conn = some i → i < made
  old : ∀ c ∈ calls, ∀ i, c.sendsOn = some i → i < made
  clean : cut = false → ∀ i, conn = some i → ∀ c ∈ calls, ¬c.cuts i
  packets : ∀ i, Whole i calls ∨ ∃ sendbuf total, Part i sendbuf total calls
  last : calls.Pairwise fun a b => ∀ i, a.cuts i → b.accepts i = []

/-- One more call; what it sends comes on the connection of `TCPClientFd`. -/
theorem Sent.call {conn : Option Nat} {cut cut' : Bool} {made : Nat} {calls : List Call} {c : Call}
    (h : Sent conn cut made calls) (hon : ∀ i, c.sendsOn = some i → conn = some i)
    (hcut : cut' = false → cut = false ∧ ∀ i, ¬c.cuts i)
    (hacc : ∀ i, conn = some i → c.accepts i ≠ [] → cut = false ∧
      ∃ sendbuf total, Part i sendbuf total (calls ++ [c])) :
    Sent conn cut' made (calls ++ [c]) where
  newest := h.newest
  old := by
    intro b hb i hi
    rcases List.mem_append.mp hb with hb | hb
    · exact h.old b hb i hi
    · rw [List.mem_singleton.mp hb] at hi
      exact h.newest i (hon i hi)
  clean := by
    intro hc i hi b hb
    obtain ⟨hold, hnew⟩ := hcut hc
    rcases List.mem_append.mp hb with hb | hb
    · exact h.clean hold i hi b hb
    · rw [List.mem_singleton.mp hb]
      exact hnew i
  packets := by
    intro i
    by_cases hnil : c.accepts i = []
    · rcases h.packets i with hw | ⟨sendbuf, total, hp⟩
      · exact .inl (hw.call hnil)
      · exact .inr ⟨sendbuf, total, hp.call hnil⟩
    · by_cases hi : conn = some i
      · exact .inr (hacc i hi hnil).2
      · exact absurd (Call.accepts_eq_nil fun hs => hi (hon i hs)) hnil
  last := by
    refine List.pairwise_append.mpr ⟨h.last, List.pairwise_singleton _ _, ?_⟩
    intro a ha b hb i hai
    rw [List.mem_singleton.mp hb]
    by_cases hnil : c.accepts i = []
    · exact hnil
    · by_cases hi : conn = some i
      · exact absurd hai (h.clean (hacc i hi hnil).1 i hi a ha)
      · exact Call.accepts_eq_nil fun hs => hi (hon i hs)

/-- A call that sends nothing. -/
theorem Sent.quiet {conn : Option Nat} {cut : Bool} {made : Nat} {calls : List Call} {c : Call}
    (h : Sent conn cut made calls) (hc : c.sendsOn = none) : Sent conn cut made (calls ++ [c]) := by
  have hno : ∀ i, c.sendsOn ≠ some i := fun i hi => by rw [hc] at hi; cases hi
  refine h.call (fun i hi => absurd hi (hno i)) (fun hcut => ⟨hcut, fun i hi => ?_⟩) ?_
  · exact hno i (Call.sendsOn_of_cuts hi)
  · exact fun i _ hacc => absurd (Call.accepts_eq_nil (hno i)) hacc

/-- The places between `OSMutexPend` and `OSMutexPost`. -/
def SendPc.holds : SendPc → Bool
  | .select _ => true
  | .send _ => true
  | .post _ => true
  | _ => false

/-- The lock has been taken for `sendbuf`, and `total` bytes of it are sent. -/
def InPacket (w : World) (sendbuf : List UInt8) (total : Nat) : Prop :=
  (sendbuf ∈ taken w.calls ∧ total ≤ sendbuf.length) ∧
    ∀ i, w.isOpen = true → w.conn = some i → w.cut = false ∧ Part i sendbuf total w.calls

/-- The open connection is between two packets, unless one was cut short. -/
def Between (w : World) : Prop :=
  ∀ i, w.isOpen = true → w.conn = some i → w.cut = false → Whole i w.calls

/-- What a sender knows at its place. -/
def SendPc.At (w : World) (sendbuf : List UInt8) : SendPc → Prop
  | .select total => InPacket w sendbuf total
  | .send total => InPacket w sendbuf total
  | .post _ => Between w
  | _ => True

theorem SendPc.At.of_not_holds {w : World} {sendbuf : List UInt8} {pc : SendPc}
    (h : pc.holds = false) : pc.At w sendbuf := by
  cases pc with
  | select total => cases h
  | send total => cases h
  | post ret => cases h
  | _ => exact trivial

/-- From `w` to `w'` nothing is sent, and there is no new connection. -/
structure Quiet (w w' : World) : Prop where
  calls : w'.calls = w.calls ∨ ∃ c, w'.calls = w.calls ++ [c] ∧ c.sendsOn = none
  isOpen : w'.isOpen = true → w.isOpen = true
  conn : ∀ i, w'.conn = some i → w.conn = some i
  cut : w'.cut = w.cut
  made : w'.made = w.made

namespace Quiet

variable {w w' : World} {sendbuf : List UInt8}

/-- Nothing is called. -/
theorem same (hcalls : w'.calls = w.calls) (hopen : w'.isOpen = w.isOpen)
    (hconn : w'.conn = w.conn) (hcut : w'.cut = w.cut) (hmade : w'.made = w.made) : Quiet w w' :=
  ⟨.inl hcalls, fun ho => hopen ▸ ho, fun _ hi => hconn ▸ hi, hcut, hmade⟩

/-- Something other than `send` is called. -/
theorem logged {c : Call} (hc : c.sendsOn = none) (hcalls : w'.calls = w.calls ++ [c])
    (hopen : w'.isOpen = w.isOpen) (hconn : w'.conn = w.conn) (hcut : w'.cut = w.cut)
    (hmade : w'.made = w.made) : Quiet w w' :=
  ⟨.inr ⟨c, hcalls, hc⟩, fun ho => hopen ▸ ho, fun _ hi => hconn ▸ hi, hcut, hmade⟩

theorem accepts_nil {c : Call} (hc : c.sendsOn = none) (i : Nat) : c.accepts i = [] :=
  Call.accepts_eq_nil fun hi => by rw [hc] at hi; cases hi

theorem sent (h : Quiet w w') (hs : Sent w.conn w.cut w.made w.calls) :
    Sent w'.conn w'.cut w'.made w'.calls := by
  have hforget : Sent w'.conn w.cut w.made w.calls :=
    ⟨fun i hi => hs.newest i (h.conn i hi), hs.old, fun hc i hi => hs.clean hc i (h.conn i hi),
      hs.packets, hs.last⟩
  rw [h.cut, h.made]
  rcases h.calls with hcalls | ⟨c, hcalls, hc⟩
  · rw [hcalls]
    exact hforget
  · rw [hcalls]
    exact hforget.quiet hc

theorem inPacket (h : Quiet w w') {total : Nat} (hp : InPacket w sendbuf total) :
    InPacket w' sendbuf total := by
  obtain ⟨⟨hmem, hle⟩, hpart⟩ := hp
  refine ⟨⟨?_, hle⟩, fun i hopen hi => ?_⟩
  · rcases h.calls with hcalls | ⟨c, hcalls, -⟩
    · rw [hcalls]
      exact hmem
    · rw [hcalls, taken_concat]
      exact List.mem_append_left _ hmem
  · obtain ⟨hcut, hp⟩ := hpart i (h.isOpen hopen) (h.conn i hi)
    refine ⟨h.cut.trans hcut, ?_⟩
    rcases h.calls with hcalls | ⟨c, hcalls, hc⟩
    · rw [hcalls]
      exact hp
    · rw [hcalls]
      exact hp.call (accepts_nil hc i)

theorem between (h : Quiet w w') (hb : Between w) : Between w' := by
  intro i hopen hi hcut
  have hw : Whole i w.calls := hb i (h.isOpen hopen) (h.conn i hi) (h.cut.symm.trans hcut)
  rcases h.calls with hcalls | ⟨c, hcalls, hc⟩
  · rw [hcalls]
    exact hw
  · rw [hcalls]
    exact hw.call (accepts_nil hc i)

theorem place (h : Quiet w w') {pc : SendPc} (hp : pc.At w sendbuf) : pc.At w' sendbuf := by
  cases pc with
  | select total => exact h.inPacket hp
  | send total => exact h.inPacket hp
  | post ret => exact h.between hp
  | _ => exact trivial

end Quiet

/-- Besides, nobody takes the lock, gives it back or goes on with its packet. -/
structure Aside (w w' : World) : Prop extends Quiet w w' where
  lock : w'.lock = w.lock
  frame : ∀ t f, w'.frame t = some f → w.frame t = some f ∨ f.pc.holds = false

theorem Quiet.aside {w w' : World} (h : Quiet w w') (hlock : w'.lock = w.lock)
    (hframe : w'.frame = w.frame) : Aside w w' :=
  ⟨h, hlock, fun t f hf => .inl (by rw [← hframe]; exact hf)⟩

/-- A task comes to a place outside, or leaves the function. -/
theorem Aside.setFrame {w w' : World} {t : Task} {g : Option Frame}
    (hg : ∀ f, g = some f → f.pc.holds = false) (hq : Quiet w w') (hlock : w'.lock = w.lock)
    (hframe : w'.frame = (w.setFrame t g).frame) : Aside w w' := by
  refine ⟨hq, hlock, fun u f hf => ?_⟩
  rw [hframe] at hf
  by_cases hu : u = t
  · exact .inr (hg f ((if_pos hu).symm.trans hf))
  · exact .inl ((if_neg hu).symm.trans hf)

/-- A task starts to send a packet. -/
theorem Aside.enters {w w' : World} {t : Task} {pkg : List UInt8} (hq : Quiet w w')
    (hlock : w'.lock = w.lock) (hframe : w'.frame = (w.setFrame t (some ⟨pkg, .pend⟩)).frame) :
    Aside w w' := by
  refine .setFrame (fun f hf => ?_) hq hlock hframe
  cases hf
  rfl

theorem Aside.leaves {w w' : World} {t : Task} (hq : Quiet w w') (hlock : w'.lock = w.lock)
    (hframe : w'.frame = (w.setFrame t none).frame) : Aside w w' :=
  .setFrame (fun f hf => by cases hf) hq hlock hframe

/-- Something that neither the connection nor the senders depend on is stored. -/
theorem Aside.stores {w w' : World} (hcalls : w'.calls = w.calls) (hopen : w'.isOpen = w.isOpen)
    (hconn : w'.conn = w.conn) (hcut : w'.cut = w.cut) (hmade : w'.made = w.made)
    (hlock : w'.lock = w.lock) (hframe : w'.frame = w.frame) : Aside w w' :=
  Quiet.aside (.same hcalls hopen hconn hcut hmade) hlock hframe

structure FramingInv (w : World) : Prop where
  sent : Sent w.conn w.cut w.made w.calls
  holder : ∀ t f, w.frame t = some f → f.pc.holds = true → w.lock = some t
  place : ∀ t f, w.frame t = some f → f.pc.At w f.sendbuf
  free : w.lock = none → Between w

namespace FramingInv

variable {w w' : World} {t : Task} {f : Frame}

theorem framing (h : FramingInv w) : Framing w := ⟨h.sent.packets, h.sent.last⟩

theorem boot : FramingInv boot where
  sent := {
    newest := fun i h => by cases h
    old := fun c hc => by cases hc
    clean := fun _ i h => by cases h
    packets := fun i => .inl (.of_fresh fun c hc => by cases hc)
    last := .nil }
  holder := fun t f h => by cases h
  place := fun t f h => by cases h
  free := fun _ i h => by cases h

/-- While `t` has the lock, or nobody, the others are outside. -/
theorem others (h : FramingInv w) (hlock : ∀ u, w.lock = some u → u = t) {u : Task} {g : Frame}
    (hu : u ≠ t) (hg : w.frame u = some g) : g.pc.holds = false := by
  cases hh : g.pc.holds with
  | false => rfl
  | true => exact absurd (hlock u (h.holder u g hg hh)) hu

theorem aside (h : FramingInv w) (ha : Aside w w') : FramingInv w' where
  sent := ha.toQuiet.sent h.sent
  holder := by
    intro t f hf hh
    rcases ha.frame t f hf with hold | hout
    · rw [ha.lock]
      exact h.holder t f hold hh
    · rw [hout] at hh
      cases hh
  place := by
    intro t f hf
    rcases ha.frame t f hf with hold | hout
    · exact ha.toQuiet.place (h.place t f hold)
    · exact .of_not_holds hout
  free := fun hn => ha.toQuiet.between (h.free (ha.lock.symm.trans hn))

/-- The holder of the lock, or the sender that takes it, goes on to `pc`. -/
theorem setPc (h : FramingInv w) (hlock : ∀ u, w.lock = some u → u = t) {pc : SendPc}
    (hframe : w'.frame = w.frame) (hsent : Sent w'.conn w'.cut w'.made w'.calls)
    (hholder : pc.holds = true → w'.lock = some t) (hplace : pc.At w' f.sendbuf)
    (hfree : w'.lock = none → Between w') : FramingInv (w'.setPc t f pc) where
  sent := hsent
  holder := by
    intro u g hg hh
    by_cases hu : u = t
    · have hnew : some ⟨f.sendbuf, pc⟩ = some g := (if_pos hu).symm.trans hg
      cases hnew
      rw [hu]
      exact hholder hh
    · have hold : w.frame u = some g := by
        rw [← hframe]
        exact (if_neg hu).symm.trans hg
      rw [h.others hlock hu hold] at hh
      cases hh
  place := by
    intro u g hg
    by_cases hu : u = t
    · have hnew : some ⟨f.sendbuf, pc⟩ = some g := (if_pos hu).symm.trans hg
      cases hnew
      exact hplace
    · have hold : w.frame u = some g := by
        rw [← hframe]
        exact (if_neg hu).symm.trans hg
      exact .of_not_holds (h.others hlock hu hold)
  free := hfree

/-! ### The steps of a sender -/

theorem pendStep (h : FramingInv w) (hok : Tidy w (.sender t .pend))
    (hs : sendStep w t f .pend = some w') : FramingInv w' := by
  simp only [sendStep] at hs
  split at hs
  · rename_i hpc hlock
    cases hs
    have hpart : ∀ i, w.isOpen = true → w.conn = some i → w.cut = false ∧
        Part i f.sendbuf 0 (w.calls ++ [.take f.sendbuf]) := by
      intro i hopen hi
      have hcut : w.cut = false := by
        cases hc : w.cut with
        | false => rfl
        | true => exact absurd ⟨hopen, hc⟩ hok
      exact ⟨hcut, (h.free hlock i hopen hi hcut).take _⟩
    refine h.setPc ?_ rfl (h.sent.quiet rfl) (fun _ => rfl) ?_ (fun hn => by cases hn)
    · intro u hu
      rw [hlock] at hu
      cases hu
    · unfold Frame.next
      by_cases hlen : f.sendbuf.length ≠ 0
      · rw [if_pos hlen]
        refine ⟨⟨?_, Nat.zero_le _⟩, hpart⟩
        change f.sendbuf ∈ taken (w.calls ++ [.take f.sendbuf])
        rw [taken_concat]
        exact List.mem_append_right _ (List.mem_singleton.mpr rfl)
      · rw [if_neg hlen]
        intro i hopen hi _
        exact (hpart i hopen hi).2.whole_of_zero
  · cases hs

theorem lock_unique (h : FramingInv w) (hf : w.frame t = some f) (hh : f.pc.holds = true) :
    ∀ u, w.lock = some u → u = t := by
  intro u hu
  rw [h.holder t f hf hh] at hu
  exact (Option.some.inj hu).symm

/-- The holder of the lock goes on without giving it back. -/
theorem keep (h : FramingInv w) (hf : w.frame t = some f) (hh : f.pc.holds = true) {pc : SendPc}
    (hlock : w'.lock = w.lock) (hframe : w'.frame = w.frame)
    (hsent : Sent w'.conn w'.cut w'.made w'.calls) (hplace : pc.At w' f.sendbuf) :
    FramingInv (w'.setPc t f pc) := by
  have hl : w'.lock = some t := hlock.trans (h.holder t f hf hh)
  refine h.setPc (h.lock_unique hf hh) hframe hsent (fun _ => hl) hplace fun hn => ?_
  rw [hl] at hn
  cases hn

theorem selectStep (h : FramingInv w) (hf : w.frame t = some f) {r : SelectRet}
    (hs : sendStep w t f (.select r) = some w') : FramingInv w' := by
  simp only [sendStep] at hs
  split at hs
  · rename_i total hpc
    have hh : f.pc.holds = true := by rw [hpc]; rfl
    have hplace : InPacket w f.sendbuf total := by
      have hp := h.place t f hf
      rw [hpc] at hp
      exact hp
    have hq : Quiet w (w.log (.select t w.TCPClientFd w.conn)) :=
      .logged (c := .select t w.TCPClientFd w.conn) rfl rfl rfl rfl rfl rfl
    cases r with
    | error => cases hs; exact h.keep hf hh rfl rfl (hq.sent h.sent) trivial
    | ready => cases hs; exact h.keep hf hh rfl rfl (hq.sent h.sent) (hq.inPacket hplace)
    | notReady => cases hs; exact h.keep hf hh rfl rfl (hq.sent h.sent) (hq.inPacket hplace)
  · cases hs

/-- A send that fails; in the middle of a packet this cuts it short. -/
theorem sendFails (h : FramingInv w) (hf : w.frame t = some f) {total : Nat}
    (hpc : f.pc = .send total)
    (hs : sendStep w t f (.send none) = some w') : FramingInv w' := by
  simp only [sendStep, hpc] at hs
  cases hs
  have hplace : InPacket w f.sendbuf total := by
    have hp := h.place t f hf
    rw [hpc] at hp
    exact hp
  refine h.keep hf (by rw [hpc]; rfl) rfl rfl ?_ ?_
  · refine h.sent.call (fun i hi => hi) (fun hcut => ?_) ?_
    · obtain ⟨hc, htotal⟩ := Bool.or_eq_false_iff.mp hcut
      exact ⟨hc, fun i hi => of_decide_eq_false htotal hi.2⟩
    · exact fun i _ hne => absurd rfl hne
  · intro i hopen hi hcut
    obtain ⟨hc, htotal⟩ := Bool.or_eq_false_iff.mp hcut
    have hzero : total = 0 := Nat.eq_zero_of_not_pos (of_decide_eq_false htotal)
    have hp : Part i f.sendbuf total w.calls := (hplace.2 i hopen hi).2
    rw [hzero] at hp
    exact hp.whole_of_zero.call rfl

/-- A send of `k` bytes. -/
theorem sendAccepts (h : FramingInv w) (hf : w.frame t = some f) {total k : Nat}
    (hpc : f.pc = .send total)
    (hs : sendStep w t f (.send (some k)) = some w') : FramingInv w' := by
  simp only [sendStep, hpc] at hs
  obtain ⟨⟨hopen, hle⟩, hs⟩ := Option.ite_none_right_eq_some.mp hs
  cases hs
  obtain ⟨⟨hmem, -⟩, hpart⟩ : InPacket w f.sendbuf total := by
    have hp := h.place t f hf
    rw [hpc] at hp
    exact hp
  have hnext : ∀ i, w.conn = some i → w.cut = false ∧ Part i f.sendbuf (total + k)
      (w.calls ++ [.send t w.TCPClientFd w.conn total
        (some ((f.sendbuf.drop total).take k))]) := by
    intro i hi
    obtain ⟨hcut, hp⟩ := hpart i hopen hi
    rw [hi]
    exact ⟨hcut, hp.send t w.TCPClientFd k⟩
  refine h.keep hf (by rw [hpc]; rfl) rfl rfl ?_ ?_
  · refine h.sent.call (fun i hi => hi) (fun hcut => ⟨hcut, fun i => id⟩) ?_
    exact fun i hi _ => ⟨(hnext i hi).1, f.sendbuf, total + k, (hnext i hi).2⟩
  · unfold Frame.next
    by_cases hlen : f.sendbuf.length ≠ total + k
    · rw [if_pos hlen]
      refine ⟨⟨?_, hle⟩, fun i _ hi => hnext i hi⟩
      change f.sendbuf ∈ taken (w.calls ++ [_])
      rw [taken_concat]
      exact List.mem_append_left _ hmem
    · rw [if_neg hlen]
      intro i _ hi _
      have hp := (hnext i hi).2
      rw [← not_not.mp hlen] at hp
      exact hp.whole

theorem sendStep (h : FramingInv w) (hf : w.frame t = some f) {a : SendAct}
    (hok : Tidy w (.sender t a)) (hs : sendStep w t f a = some w') : FramingInv w' := by
  cases a with
  | pend => exact h.pendStep hok hs
  | select r => exact h.selectStep hf hs
  | send n =>
    have hs' := hs
    simp only [Client.sendStep] at hs
    split at hs
    · rename_i total hpc
      cases n with
      | none => exact h.sendFails hf hpc hs'
      | some k => exact h.sendAccepts hf hpc hs'
    · cases hs
  | post =>
    simp only [Client.sendStep] at hs
    split at hs
    · rename_i ret hpc
      cases hs
      have hh : f.pc.holds = true := by rw [hpc]; rfl
      have hbetween : Between w := by
        have hp := h.place t f hf
        rw [hpc] at hp
        exact hp
      refine h.setPc (h.lock_unique hf hh) rfl h.sent ?_ ?_ fun _ => hbetween
      · intro hc
        split at hc <;> cases hc
      · refine .of_not_holds ?_
        split <;> rfl
    · cases hs
  | setFlag =>
    simp only [Client.sendStep] at hs
    split at hs
    · cases hs
      refine h.aside (Aside.setFrame ?_ (.same rfl rfl rfl rfl rfl) rfl rfl)
      intro g hg
      cases hg
      rfl
    · cases hs

/-! ### The other steps -/

end FramingInv

/-- What a step of the cloud task outside `Socket_TCPClientSendData` can do. -/
theorem cloudStep_cases {w w' : World} {a : CloudAct} (hs : cloudStep w a = some w') :
    (∃ fd, a = .socket (some fd) ∧ w'.lock = w.lock ∧ w'.frame = w.frame ∧
      w'.calls = w.calls ∧ w'.conn = some w.made ∧ w'.cut = false ∧ w'.made = w.made + 1) ∨
    Aside w w' := by
  unfold cloudStep at hs
  split at hs
  · -- `socket` fails
    cases hs
    exact .inr (.stores rfl rfl rfl rfl rfl rfl rfl)
  · -- `socket` returns a descriptor
    rename_i fd hpc
    cases hs
    exact .inl ⟨fd, rfl, rfl, rfl, rfl, rfl, rfl, rfl⟩
  · -- `connect`
    cases hs
    exact .inr (.stores rfl rfl rfl rfl rfl rfl rfl)
  · -- `close`
    cases hs
    have hq : Quiet w (w.log (.close w.TCPClientFd w.conn)) :=
      .logged (c := .close w.TCPClientFd w.conn) rfl rfl rfl rfl rfl rfl
    exact .inr (Quiet.aside ⟨hq.calls, fun hc => (by cases hc), fun _ => id, rfl, rfl⟩ rfl rfl)
  · -- `TCPClientFd = -1;` behind the close
    cases hs
    exact .inr (Quiet.aside ⟨.inl rfl, id, fun i hi => (by cases hi), rfl, rfl⟩ rfl rfl)
  · -- the reset flag
    cases hs
    exact .inr (.stores rfl rfl rfl rfl rfl rfl rfl)
  · -- `conn_status = SOCK_DONE;`
    cases hs
    exact .inr (.stores rfl rfl rfl rfl rfl rfl rfl)
  · -- the connect request is sent
    cases hs
    exact .inr (.enters (.same rfl rfl rfl rfl rfl) rfl rfl)
  · -- and what that returned
    obtain ⟨ret, -, hs⟩ := Option.bind_eq_some_iff.mp hs
    by_cases hret : ret < 0
    · rw [if_pos hret] at hs
      cases hs
      exact .inr (.leaves (.same rfl rfl rfl rfl rfl) rfl rfl)
    · rw [if_neg hret] at hs
      cases hs
      exact .inr (.leaves (.same rfl rfl rfl rfl rfl) rfl rfl)
  · -- `select` in the receiver
    rename_i r hpc
    have hq : Quiet w (w.log (.select .cloud w.TCPClientFd w.conn)) :=
      .logged (c := .select .cloud w.TCPClientFd w.conn) rfl rfl rfl rfl rfl rfl
    cases r with
    | error => cases hs; exact .inr (Quiet.aside ⟨hq.calls, id, fun _ => id, rfl, rfl⟩ rfl rfl)
    | ready => cases hs; exact .inr (Quiet.aside ⟨hq.calls, id, fun _ => id, rfl, rfl⟩ rfl rfl)
    | notReady => cases hs; exact .inr (Quiet.aside ⟨hq.calls, id, fun _ => id, rfl, rfl⟩ rfl rfl)
  · -- the test of the reset flag behind it
    cases hs
    exact .inr (.stores rfl rfl rfl rfl rfl rfl rfl)
  · -- `recv`
    rename_i n hpc
    cases hs
    have hq : Quiet w (w.log (.recv w.TCPClientFd w.conn n)) :=
      .logged (c := .recv w.TCPClientFd w.conn n) rfl rfl rfl rfl rfl rfl
    exact .inr (Quiet.aside ⟨hq.calls, id, fun _ => id, rfl, rfl⟩ rfl rfl)
  · -- a connect response
    cases hs
    exact .inr (.stores rfl rfl rfl rfl rfl rfl rfl)
  · -- an answer is sent
    cases hs
    exact .inr (.enters (.same rfl rfl rfl rfl rfl) rfl rfl)
  · -- and nobody looks at what that returned
    obtain ⟨ret, -, hs⟩ := Option.bind_eq_some_iff.mp hs
    cases hs
    exact .inr (.leaves (.same rfl rfl rfl rfl rfl) rfl rfl)
  · -- the end of the processing
    cases hs
    exact .inr (.stores rfl rfl rfl rfl rfl rfl rfl)
  · -- the test in the loop
    cases hs
    exact .inr (.stores rfl rfl rfl rfl rfl rfl rfl)
  · cases hs

namespace FramingInv

variable {w w' : World}

/-- A new connection has accepted nothing, nor has anything of the packet that is being sent. -/
theorem socketStep (h : FramingInv w)
    (hok : ∀ t f total, w.frame t = some f → f.looping total → total = 0)
    (hlock : w'.lock = w.lock) (hframe : w'.frame = w.frame) (hcalls : w'.calls = w.calls)
    (hconn : w'.conn = some w.made) (hcut : w'.cut = false) (hmade : w'.made = w.made + 1) :
    FramingInv w' := by
  have hfresh : ∀ c ∈ w.calls, c.sendsOn ≠ some w.made := fun c hc hs =>
    Nat.lt_irrefl _ (h.sent.old c hc _ hs)
  have hbetween : Between w' := by
    intro i _ hi _
    rw [hconn] at hi
    cases hi
    rw [hcalls]
    exact .of_fresh hfresh
  have hpacket : ∀ t f total, w.frame t = some f → f.looping total →
      InPacket w f.sendbuf total → InPacket w' f.sendbuf total := by
    intro t f total hf hl hp
    obtain ⟨⟨hmem, hle⟩, -⟩ := hp
    have hzero : total = 0 := hok t f total hf hl
    refine ⟨⟨by rw [hcalls]; exact hmem, hle⟩, fun i _ hi => ⟨hcut, ?_⟩⟩
    rw [hconn] at hi
    cases hi
    rw [hcalls, hzero]
    exact .of_fresh hfresh hmem
  constructor
  · rw [hconn, hcut, hmade, hcalls]
    constructor
    · intro i hi
      cases hi
      exact Nat.lt_succ_self _
    · exact fun c hc i hi => Nat.lt_succ_of_lt (h.sent.old c hc i hi)
    · intro _ i hi c hc hcuts
      cases hi
      exact hfresh c hc (Call.sendsOn_of_cuts hcuts)
    · exact h.sent.packets
    · exact h.sent.last
  · intro t f hf hh
    rw [hlock]
    exact h.holder t f (by rw [← hframe]; exact hf) hh
  · intro t f hf
    rw [hframe] at hf
    have hp := h.place t f hf
    cases hpc : f.pc with
    | select total =>
      rw [hpc] at hp
      exact hpacket t f total hf (.inl hpc) hp
    | send total =>
      rw [hpc] at hp
      exact hpacket t f total hf (.inr hpc) hp
    | post ret => exact hbetween
    | _ => exact trivial
  · exact fun _ => hbetween

theorem step (h : FramingInv w) {a : Act} (hok : Tidy w a) (hs : step w a = some w') :
    FramingInv w' := by
  cases a with
  | cloud a =>
    rcases cloudStep_cases hs with ⟨fd, rfl, hlock, hframe, hcalls, hconn, hcut, hmade⟩ | ha
    · exact h.socketStep hok hlock hframe hcalls hconn hcut hmade
    · exact h.aside ha
  | start t pkg =>
    obtain ⟨-, -, rfl⟩ := startSend_cases hs
    exact h.aside (.enters (.same rfl rfl rfl rfl rfl) rfl rfl)
  | sender t a =>
    obtain ⟨f, hf, hs⟩ := Option.bind_eq_some_iff.mp hs
    exact h.sendStep hf hok hs
  | finish t =>
    obtain ⟨-, -, rfl⟩ := finishSend_cases hs
    exact h.aside (.leaves (.same rfl rfl rfl rfl rfl) rfl rfl)

end FramingInv

/-- **Stream integrity.**  In every tidy run, a connection accepts whole packets in the order in
which their senders took the lock, and nothing after a packet that was cut short. -/
theorem stream_integrity {w : World} (h : Reach (fun w => w = boot) step Tidy w) : Framing w := by
  have hinv : FramingInv w := by
    apply h.invariant (I := FramingInv)
    · intro w hw
      rw [hw]
      exact .boot
    · intro w a w' hi hok hs
      exact hi.step hok hs
  exact hinv.framing

/-- The cloud task logs in and sends `CONNREQ` in two pieces. -/
def loggedIn : List Act :=
  [.cloud (.socket (some 3)), .cloud (.connect true), .cloud .reset, .cloud .enter,
    .cloud (.connReq [0x10, 0]), .sender .cloud .pend, .sender .cloud (.select .ready),
    .sender .cloud (.send (some 1)), .sender .cloud (.select .ready),
    .sender .cloud (.send (some 1))]

theorem stream_integrity_loggedIn :
    ∃ w, run step boot loggedIn = some w ∧ accepted 0 w.calls = [0x10, 0] ∧ Framing w := by
  refine ⟨_, rfl, rfl, stream_integrity (reach_run loggedIn (.start rfl) ?_ rfl)⟩
  refine ⟨fun t f total hf => (by cases hf), fun _ h => ?_⟩
  cases h
  refine ⟨trivial, fun _ h => ?_⟩
  cases h
  refine ⟨trivial, fun _ h => ?_⟩
  cases h
  refine ⟨trivial, fun _ h => ?_⟩
  cases h
  refine ⟨trivial, fun _ h => ?_⟩
  cases h
  refine ⟨fun hc => (by cases hc.2), fun _ _ => ?_⟩
  exact ⟨trivial, fun _ _ => ⟨trivial, fun _ _ => ⟨trivial, fun _ _ => ⟨trivial, fun _ _ => trivial⟩⟩⟩⟩

/-- Half of `CONNREQ` is sent, then the send fails, and `CONNREQ` is sent once more. -/
def halfSent : List Act :=
  [.cloud (.socket (some 3)), .cloud (.connect true), .cloud .reset, .cloud .enter,
    .cloud (.connReq [0x10, 0]), .sender .cloud .pend, .sender .cloud (.select .ready),
    .sender .cloud (.send (some 1)), .sender .cloud (.select .ready),
    .sender .cloud (.send none), .sender .cloud .post, .sender .cloud .setFlag,
    .cloud .connSent, .cloud (.connReq [0x10, 0]), .sender .cloud .pend,
    .sender .cloud (.select .ready), .sender .cloud (.send (some 2))]

/-- The server receives the first byte twice. -/
theorem sent_after_cut :
    ∃ w, run step boot halfSent = some w ∧ accepted 0 w.calls = [0x10, 0x10, 0] ∧ ¬Framing w := by
  refine ⟨_, rfl, rfl, fun h => ?_⟩
  have htwo : [Call.send .cloud 3 (some 0) 1 none,
      .send .cloud 3 (some 0) 0 (some [0x10, 0])].Pairwise
        fun a b => ∀ i, a.cuts i → b.accepts i = [] := h.last.sublist (by decide)
  cases List.pairwise_pair.mp htwo 0 ⟨rfl, Nat.one_pos⟩

end Nl6621.Net.Client
