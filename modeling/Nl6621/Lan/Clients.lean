import Mathlib.Tactic.Common
import Nl6621.Lib.Runs

/-!
# The clients of the TCP server of the LAN

`Socket_TCPServerRecvData` keeps the descriptors of its clients in the five slots of
`lan_client`.  A round of its loop waits in `select`, receives from the slots that are ready,
and accepts a new client into the first free slot; `client_connect_count` is meant to say how
many slots are taken.  What lwIP answers in a round is a `Round`, and a `Server` is the state
between two rounds; `accepted` are the descriptors that `accept` has returned, of which the
program closes none, and `uses` is what was done with slots and descriptors.

The counter is counted down for a client that leaves and up for no one, a client that leaves is
taken out of its slot and not closed, a sixth client is put behind the table, and every slot is
tested with `FD_ISSET`, a free one with the descriptor -1, which for the macro is the bit of the
descriptor 7.  `table_kept` gives the rounds that each part of the bookkeeping needs, and no
round that has something to do is among those that all of them need.
-/

namespace Nl6621.Lan.Clients

open Lib

/-! ### Descriptor sets -/

def TCP_SERVER_CLIENT_MAX_NUM : Nat := 5

def FD_SETSIZE : Int := 8

/-- The set is one byte. -/
abbrev FdSet := Nat → Bool

/-- `(n) & 7`, also for the descriptor -1. -/
def fdBit (n : Int) : Nat := (n % 8).toNat

def FD_ZERO : FdSet := fun _ => false

def FD_SET (n : Int) (p : FdSet) : FdSet := fun b => if b = fdBit n then true else p b

def FD_CLR (n : Int) (p : FdSet) : FdSet := fun b => if b = fdBit n then false else p b

def FD_ISSET (n : Int) (p : FdSet) : Bool := p (fdBit n)

/-- `FD_SET` for the slots that are taken. -/
def setClients (fdset : FdSet) : List Int → FdSet
  | [] => fdset
  | client_fd :: fds => setClients (if client_fd ≥ 0 then FD_SET client_fd fdset else fdset) fds

/-- `lwip_selscan` leaves the descriptors that are ready. -/
def selscan (maxfdp1 : Int) (readset ready : FdSet) : FdSet :=
  fun b => decide ((b : Int) < maxfdp1) && readset b && ready b

/-! ### The loop -/

/-- What lwIP answers in one round. -/
structure Round where
  /-- what `select` returns -/
  ret : Int
  ready : FdSet
  /-- what `recv` returns for an open descriptor -/
  received : Int → Int
  /-- what `accept` returns -/
  new_fd : Int

/-- `get_socket` refuses a negative descriptor. -/
def Round.recv (r : Round) (fd : Int) : Int := if fd < 0 then -1 else r.received fd

inductive Use where
  /-- `lan_client[i]` -/
  | index (i : Nat)
  | isset (client_fd : Int)
  | recv (client_fd : Int)
deriving DecidableEq, Repr

structure Server where
  lan_client : List Int
  client_connect_count : Int
  max_sock : Int
  /-- the descriptors that `accept` has returned -/
  accepted : List Int
  uses : List Use

/-- What the loop over the slots changes. -/
structure Sweep where
  fdset : FdSet
  count : Int
  slots : List Int
  uses : List Use

/-- The loop over the slots from the slot `i` on, with the slots that are left. -/
def sweep (r : Round) (fdset : FdSet) (count : Int) (i : Nat) : List Int → Sweep
  | [] => ⟨fdset, count, [], []⟩
  | client_fd :: fds =>
    if FD_ISSET client_fd fdset then
      if r.recv client_fd ≤ 0 then
        let rest := sweep r (FD_CLR client_fd fdset) (count - 1) (i + 1) fds
        { rest with
          slots := -1 :: rest.slots
          uses := .index i :: .isset client_fd :: .recv client_fd :: rest.uses }
      else
        let rest := sweep r fdset count (i + 1) fds
        { rest with
          slots := client_fd :: rest.slots
          uses := .index i :: .isset client_fd :: .recv client_fd :: rest.uses }
    else
      let rest := sweep r fdset count (i + 1) fds
      { rest with
        slots := client_fd :: rest.slots, uses := .index i :: .isset client_fd :: rest.uses }

/-- The indexes of a loop over the table. -/
def loopUses : List Use := (List.range TCP_SERVER_CLIENT_MAX_NUM).map .index

/-- The first free slot, and 5 when there is none. -/
def freeSlot (lan_client : List Int) : Nat := lan_client.findIdx fun client_fd => client_fd == -1

/-- `accept` has returned `new_fd`. -/
def takeClient (s : Server) (new_fd : Int) : Server :=
  let s := { s with accepted := new_fd :: s.accepted }
  if s.client_connect_count < (TCP_SERVER_CLIENT_MAX_NUM : Int) then
    let i := freeSlot s.lan_client
    { s with
      max_sock := if s.max_sock < new_fd + 1 then new_fd + 1 else s.max_sock
      lan_client := s.lan_client.set i new_fd
      uses := s.uses ++ [.index i, .recv new_fd] }
  else s

def round (TCPServerFd : Int) (s : Server) (r : Round) : Server :=
  let fdset := setClients (FD_SET TCPServerFd FD_ZERO) s.lan_client
  let s := { s with uses := s.uses ++ loopUses }
  if r.ret < 0 then s
  else if r.ret = 0 then s
  else
    let fdset := selscan (s.max_sock + 1) fdset r.ready
    let swept := sweep r fdset s.client_connect_count 0 s.lan_client
    let s :=
      { s with
        lan_client := swept.slots
        client_connect_count := swept.count
        uses := s.uses ++ swept.uses }
    if FD_ISSET TCPServerFd swept.fdset then
      if r.new_fd < 0 then s else takeClient s r.new_fd
    else s

def Use.InTable : Use → Prop
  | .index i => i < TCP_SERVER_CLIENT_MAX_NUM
  | .isset _ => True
  | .recv _ => True

instance (u : Use) : Decidable u.InTable := by
  cases u <;> unfold Use.InTable <;> infer_instance

def Indexed (s : Server) : Prop := ∀ u ∈ s.uses, u.InTable

instance (s : Server) : Decidable (Indexed s) := by unfold Indexed; infer_instance

/-- A new descriptor is one of lwIP's and is not open. -/
def Answers (TCPServerFd : Int) (s : Server) (r : Round) : Prop :=
  r.new_fd < 0 ∨ r.new_fd < FD_SETSIZE ∧ r.new_fd ≠ TCPServerFd ∧ r.new_fd ∉ s.accepted

instance (TCPServerFd : Int) (s : Server) (r : Round) : Decidable (Answers TCPServerFd s r) := by
  unfold Answers; infer_instance

/-- What happens after a store behind the table is not known. -/
def step (TCPServerFd : Int) (s : Server) (r : Round) : Option Server :=
  if Indexed s ∧ Answers TCPServerFd s r then some (round TCPServerFd s r) else none

/-- In front of the loop, with the slots initialised. -/
def boot (TCPServerFd : Int) : Server where
  lan_client := List.replicate TCP_SERVER_CLIENT_MAX_NUM (-1)
  client_connect_count := 0
  max_sock := TCPServerFd
  accepted := []
  uses := loopUses

def Boot (TCPServerFd : Int) (s : Server) : Prop := s = boot TCPServerFd

/-! ### The bookkeeping -/

/-- The counter says how many slots are taken. -/
def Counted (s : Server) : Prop :=
  s.client_connect_count = s.lan_client.countP (fun client_fd => decide (client_fd ≥ 0)) ∧
    0 ≤ s.client_connect_count ∧ s.client_connect_count ≤ 5

/-- Every descriptor that was accepted, and so is open, is in one slot. -/
def Accounted (s : Server) : Prop := ∀ fd ∈ s.accepted, s.lan_client.count fd = 1

def Use.OfTaken : Use → Prop
  | .index _ => True
  | .isset client_fd => client_fd ≥ 0
  | .recv client_fd => client_fd ≥ 0

/-- `FD_ISSET` and `recv` are applied to taken slots. -/
def Tested (s : Server) : Prop := ∀ u ∈ s.uses, u.OfTaken

structure Kept (s : Server) : Prop where
  counted : Counted s
  indexed : Indexed s
  accounted : Accounted s
  tested : Tested s

/-! ### Conditions -/

/-- The server's descriptor is ready and `accept` succeeds. -/
def Admits (TCPServerFd : Int) (r : Round) : Prop :=
  0 < r.ret ∧ r.ready (fdBit TCPServerFd) = true ∧ 0 ≤ r.new_fd

/-- Every slot is taken, and no client leaves. -/
def Full (s : Server) (r : Round) : Prop :=
  ∀ fd ∈ s.lan_client, 0 ≤ fd ∧ (r.ready (fdBit fd) = true → 0 < r.received fd)

/-- A client leaves.  The client with the descriptor 7 is not seen behind a free slot. -/
def Leaves (s : Server) (r : Round) : Prop :=
  0 < r.ret ∧ ∃ l₁ fd l₂, s.lan_client = l₁ ++ fd :: l₂ ∧ 0 ≤ fd ∧ r.ready (fdBit fd) = true ∧
    r.received fd ≤ 0 ∧ (fd = 7 → -1 ∉ l₁)

/-- Nothing is ready. -/
def Idle (_ : Server) (r : Round) : Prop := r.ret ≤ 0

/-- No client is accepted, nor taken for one that leaves. -/
def NoClient (TCPServerFd : Int) (_ : Server) (r : Round) : Prop :=
  r.ret ≤ 0 ∨ r.ready (fdBit TCPServerFd) = false ∨ TCPServerFd ≠ 7 ∧ r.new_fd < 0

def NoSixth (TCPServerFd : Int) (s : Server) (r : Round) : Prop := ¬(Admits TCPServerFd r ∧ Full s r)

def NoneLost (TCPServerFd : Int) (s : Server) (r : Round) : Prop :=
  NoSixth TCPServerFd s r ∧ ¬Leaves s r

/-! ### The sets -/

theorem isset_clr {n m : Int} {p : FdSet} (h : fdBit n ≠ fdBit m) :
    FD_ISSET n (FD_CLR m p) = FD_ISSET n p := if_neg h

theorem isset_clr_self {n m : Int} {p : FdSet} (h : fdBit n = fdBit m) :
    FD_ISSET n (FD_CLR m p) = false := if_pos h

theorem fdBit_inj {n m : Int} (hn : 0 ≤ n) (hn' : n < 8) (hm : 0 ≤ m) (hm' : m < 8)
    (h : fdBit n = fdBit m) : n = m := by
  rw [fdBit, fdBit] at h
  omega

theorem fdBit_free : fdBit (-1) = 7 := rfl

theorem fdBit_eq {n : Int} (hn : 0 ≤ n) (hn' : n < 8) : fdBit n = n.toNat := by
  rw [fdBit]
  omega

theorem setClients_iff {fds : List Int} : ∀ {p : FdSet} {b : Nat},
    setClients p fds b = true ↔ p b = true ∨ ∃ fd ∈ fds, 0 ≤ fd ∧ fdBit fd = b := by
  induction fds with
  | nil =>
    intro p b
    rw [setClients]
    exact ⟨.inl, fun h => h.elim id fun ⟨fd, hfd, _⟩ => absurd hfd List.not_mem_nil⟩
  | cons x fds ih =>
    intro p b
    rw [setClients, ih]
    by_cases hx : x ≥ 0
    · rw [if_pos hx, FD_SET]
      by_cases hb : b = fdBit x
      · rw [if_pos hb]
        exact ⟨fun _ => .inr ⟨x, List.mem_cons_self, hx, hb.symm⟩, fun _ => .inl rfl⟩
      · rw [if_neg hb]
        constructor
        · rintro (h | ⟨fd, hfd, h⟩)
          · exact .inl h
          · exact .inr ⟨fd, List.mem_cons_of_mem _ hfd, h⟩
        · rintro (h | ⟨fd, hfd, h0, h⟩)
          · exact .inl h
          · rcases List.mem_cons.mp hfd with rfl | hfd
            · exact absurd h.symm hb
            · exact .inr ⟨fd, hfd, h0, h⟩
    · rw [if_neg hx]
      constructor
      · rintro (h | ⟨fd, hfd, h⟩)
        · exact .inl h
        · exact .inr ⟨fd, List.mem_cons_of_mem _ hfd, h⟩
      · rintro (h | ⟨fd, hfd, h0, h⟩)
        · exact .inl h
        · rcases List.mem_cons.mp hfd with rfl | hfd
          · exact absurd h0 hx
          · exact .inr ⟨fd, hfd, h0, h⟩

theorem recv_free (r : Round) : r.recv (-1) ≤ 0 := by
  rw [Round.recv, if_pos (by decide)]
  decide

theorem recv_taken {r : Round} {fd : Int} (h : 0 ≤ fd) : r.recv fd = r.received fd :=
  if_neg (by omega)

/-! ### The loop over the slots -/

theorem sweep_leave {r : Round} {f : FdSet} {x : Int} (c : Int) (i : Nat) (fds : List Int)
    (hf : FD_ISSET x f = true) (hr : r.recv x ≤ 0) : sweep r f c i (x :: fds) =
      ⟨(sweep r (FD_CLR x f) (c - 1) (i + 1) fds).fdset,
        (sweep r (FD_CLR x f) (c - 1) (i + 1) fds).count,
        -1 :: (sweep r (FD_CLR x f) (c - 1) (i + 1) fds).slots,
        .index i :: .isset x :: .recv x :: (sweep r (FD_CLR x f) (c - 1) (i + 1) fds).uses⟩ := by
  rw [sweep, if_pos hf, if_pos hr]

/-- What a slot that is not freed does. -/
theorem sweep_keep {r : Round} {f : FdSet} {x : Int} (c : Int) (i : Nat) (fds : List Int)
    (h : ¬(FD_ISSET x f = true ∧ r.recv x ≤ 0)) : ∃ us, sweep r f c i (x :: fds) =
      ⟨(sweep r f c (i + 1) fds).fdset, (sweep r f c (i + 1) fds).count,
        x :: (sweep r f c (i + 1) fds).slots,
        .index i :: .isset x :: us ++ (sweep r f c (i + 1) fds).uses⟩ ∧ (us = [] ∨ us = [.recv x]) := by
  by_cases hf : FD_ISSET x f = true
  · refine ⟨[.recv x], ?_, .inr rfl⟩
    rw [sweep, if_pos hf, if_neg fun hr => h ⟨hf, hr⟩]
    rfl
  · refine ⟨[], ?_, .inl rfl⟩
    rw [sweep, if_neg hf]
    rfl

theorem sweep_length {r : Round} {fds : List Int} : ∀ {f : FdSet} {c : Int} {i : Nat},
    (sweep r f c i fds).slots.length = fds.length := by
  induction fds with
  | nil => intro f c i; rfl
  | cons x fds ih =>
    intro f c i
    by_cases h : FD_ISSET x f = true ∧ r.recv x ≤ 0
    · rw [sweep_leave c i fds h.1 h.2, List.length_cons, ih, List.length_cons]
    · obtain ⟨us, hs, -⟩ := sweep_keep c i fds h
      rw [hs, List.length_cons, ih, List.length_cons]

theorem sweep_count_le {r : Round} {fds : List Int} : ∀ {f : FdSet} {c : Int} {i : Nat},
    (sweep r f c i fds).count ≤ c := by
  induction fds with
  | nil => intro f c i; exact Int.le_refl _
  | cons x fds ih =>
    intro f c i
    by_cases h : FD_ISSET x f = true ∧ r.recv x ≤ 0
    · rw [sweep_leave c i fds h.1 h.2]
      have hrest : (sweep r (FD_CLR x f) (c - 1) (i + 1) fds).count ≤ c - 1 := ih
      exact Int.le_trans hrest (by omega)
    · obtain ⟨us, hs, -⟩ := sweep_keep c i fds h
      rw [hs]
      exact ih

theorem sweep_fdset_le {r : Round} {fds : List Int} : ∀ {f : FdSet} {c : Int} {i : Nat} {n : Int},
    FD_ISSET n (sweep r f c i fds).fdset = true → FD_ISSET n f = true := by
  induction fds with
  | nil => intro f c i n h; exact h
  | cons x fds ih =>
    intro f c i n hset
    by_cases h : FD_ISSET x f = true ∧ r.recv x ≤ 0
    · rw [sweep_leave c i fds h.1 h.2] at hset
      have hclr : FD_ISSET n (FD_CLR x f) = true := ih hset
      by_cases hbit : fdBit n = fdBit x
      · rw [isset_clr_self hbit] at hclr
        cases hclr
      · rwa [isset_clr hbit] at hclr
    · obtain ⟨us, hs, -⟩ := sweep_keep c i fds h
      rw [hs] at hset
      exact ih hset

/-- A slot keeps its descriptor or is freed. -/
theorem mem_sweep {r : Round} {fds : List Int} : ∀ {f : FdSet} {c : Int} {i : Nat} {fd : Int},
    fd ∈ (sweep r f c i fds).slots → fd = -1 ∨ fd ∈ fds := by
  induction fds with
  | nil => intro f c i fd h; exact .inr h
  | cons x fds ih =>
    intro f c i fd hfd
    by_cases h : FD_ISSET x f = true ∧ r.recv x ≤ 0
    · rw [sweep_leave c i fds h.1 h.2] at hfd
      rcases List.mem_cons.mp hfd with rfl | hfd
      · exact .inl rfl
      · exact (ih hfd).imp id (List.mem_cons_of_mem _)
    · obtain ⟨us, hs, -⟩ := sweep_keep c i fds h
      rw [hs] at hfd
      rcases List.mem_cons.mp hfd with rfl | hfd
      · exact .inr List.mem_cons_self
      · exact (ih hfd).imp id (List.mem_cons_of_mem _)

/-- Taken slots hold different descriptors. -/
def Distinct (fds : List Int) : Prop := fds.Pairwise fun a b => a = b → a < 0

theorem sweep_distinct {r : Round} {fds : List Int} : ∀ {f : FdSet} {c : Int} {i : Nat},
    Distinct fds → Distinct (sweep r f c i fds).slots := by
  induction fds with
  | nil => intro f c i h; exact h
  | cons x fds ih =>
    intro f c i hd
    obtain ⟨hx, hfds⟩ := List.pairwise_cons.mp hd
    by_cases h : FD_ISSET x f = true ∧ r.recv x ≤ 0
    · rw [sweep_leave c i fds h.1 h.2]
      exact List.pairwise_cons.mpr ⟨fun y _ _ => by omega, ih hfds⟩
    · obtain ⟨us, hs, -⟩ := sweep_keep c i fds h
      rw [hs]
      refine List.pairwise_cons.mpr ⟨fun y hy hxy => ?_, ih hfds⟩
      rcases mem_sweep hy with rfl | hy
      · omega
      · exact hx y hy hxy

theorem sweep_inTable {r : Round} {fds : List Int} : ∀ {f : FdSet} {c : Int} {i : Nat},
    i + fds.length ≤ TCP_SERVER_CLIENT_MAX_NUM → ∀ u ∈ (sweep r f c i fds).uses, u.InTable := by
  induction fds with
  | nil => intro f c i _ u hu; exact absurd hu List.not_mem_nil
  | cons x fds ih =>
    intro f c i hi u hu
    rw [List.length_cons] at hi
    have hindex : Use.InTable (.index i) := by
      change i < TCP_SERVER_CLIENT_MAX_NUM
      omega
    by_cases h : FD_ISSET x f = true ∧ r.recv x ≤ 0
    · rw [sweep_leave c i fds h.1 h.2] at hu
      rcases List.mem_cons.mp hu with rfl | hu
      · exact hindex
      · rcases List.mem_cons.mp hu with rfl | hu
        · exact trivial
        · rcases List.mem_cons.mp hu with rfl | hu
          · exact trivial
          · exact ih (by omega) u hu
    · obtain ⟨us, hs, hus⟩ := sweep_keep c i fds h
      rw [hs] at hu
      rcases List.mem_append.mp hu with hu | hu
      · rcases List.mem_cons.mp hu with rfl | hu
        · exact hindex
        · rcases List.mem_cons.mp hu with rfl | hu
          · exact trivial
          · rcases hus with rfl | rfl
            · exact absurd hu List.not_mem_nil
            · rw [List.mem_singleton.mp hu]
              exact trivial
      · exact ih (by omega) u hu

/-- The first slot is tested. -/
theorem isset_mem_sweep {r : Round} {f : FdSet} {c : Int} {i : Nat} {x : Int} {fds : List Int} :
    .isset x ∈ (sweep r f c i (x :: fds)).uses := by
  by_cases h : FD_ISSET x f = true ∧ r.recv x ≤ 0
  · rw [sweep_leave c i fds h.1 h.2]
    exact List.mem_cons_of_mem _ List.mem_cons_self
  · obtain ⟨us, hs, -⟩ := sweep_keep c i fds h
    rw [hs]
    exact List.mem_append_left _ (List.mem_cons_of_mem _ List.mem_cons_self)

theorem sweep_stay {r : Round} {fds : List Int} : ∀ {f : FdSet} {c : Int} {i : Nat},
    (∀ fd ∈ fds, FD_ISSET fd f = true → 0 < r.recv fd) → (sweep r f c i fds).fdset = f ∧
      (sweep r f c i fds).count = c ∧ (sweep r f c i fds).slots = fds := by
  induction fds with
  | nil => intro f c i _; exact ⟨rfl, rfl, rfl⟩
  | cons x fds ih =>
    intro f c i hstay
    have h : ¬(FD_ISSET x f = true ∧ r.recv x ≤ 0) := fun h => by
      have hpos := hstay x List.mem_cons_self h.1
      omega
    obtain ⟨us, hs, -⟩ := sweep_keep c i fds h
    obtain ⟨h1, h2, h3⟩ := ih (f := f) (c := c) (i := i + 1) fun fd hfd =>
      hstay fd (List.mem_cons_of_mem _ hfd)
    rw [hs]
    refine ⟨h1, h2, ?_⟩
    change x :: (sweep r f c (i + 1) fds).slots = x :: fds
    rw [h3]

/-- A free slot stays free, and a slot whose client leaves is freed. -/
theorem sweep_free {r : Round} {fds : List Int} : ∀ {f : FdSet} {c : Int} {i : Nat},
    (∃ fd ∈ fds, fd = -1 ∨ FD_ISSET fd f = true ∧ r.recv fd ≤ 0) →
      -1 ∈ (sweep r f c i fds).slots := by
  induction fds with
  | nil => intro f c i ⟨fd, hfd, _⟩; exact absurd hfd List.not_mem_nil
  | cons x fds ih =>
    intro f c i ⟨fd, hfd, hfree⟩
    by_cases h : FD_ISSET x f = true ∧ r.recv x ≤ 0
    · rw [sweep_leave c i fds h.1 h.2]
      exact List.mem_cons_self
    · obtain ⟨us, hs, -⟩ := sweep_keep c i fds h
      rw [hs]
      rcases List.mem_cons.mp hfd with rfl | hfd
      · rcases hfree with rfl | hfree
        · exact List.mem_cons_self
        · exact absurd hfree h
      · exact List.mem_cons_of_mem _ (ih ⟨fd, hfd, hfree⟩)

/-- What the slots hold. -/
def Slot (fd : Int) : Prop := fd = -1 ∨ 0 ≤ fd ∧ fd < 8

/-- A client of the slots leaves, seen from the set. -/
def LeavesIn (r : Round) (f : FdSet) (fds : List Int) : Prop :=
  ∃ l₁ fd l₂, fds = l₁ ++ fd :: l₂ ∧ 0 ≤ fd ∧ FD_ISSET fd f = true ∧ r.recv fd ≤ 0 ∧
    (fd = 7 → -1 ∉ l₁)

theorem fdBit_ne {fd x : Int} (hfd : 0 ≤ fd) (hfd' : fd < 8) (hx : Slot x) (hne : fd ≠ x)
    (hfree : fd = 7 → x ≠ -1) : fdBit fd ≠ fdBit x := by
  intro hbit
  rcases hx with rfl | ⟨hx, hx'⟩
  · rw [fdBit_free, fdBit_eq hfd hfd'] at hbit
    exact hfree (by omega) rfl
  · exact hne (fdBit_inj hfd hfd' hx hx' hbit)

/-- **When no client leaves, every slot stays as it is.** -/
theorem sweep_slots_eq {r : Round} {fds : List Int} : ∀ {f : FdSet} {c : Int} {i : Nat},
    (∀ fd ∈ fds, Slot fd) → ¬LeavesIn r f fds → (sweep r f c i fds).slots = fds := by
  induction fds with
  | nil => intro f c i _ _; rfl
  | cons x fds ih =>
    intro f c i hslot hl
    have hslots : ∀ fd ∈ fds, Slot fd := fun fd hfd => hslot fd (List.mem_cons_of_mem _ hfd)
    by_cases h : FD_ISSET x f = true ∧ r.recv x ≤ 0
    · rcases hslot x List.mem_cons_self with rfl | ⟨hx, -⟩
      · -- behind the free slot the bit of the descriptor 7 is cleared
        rw [sweep_leave c i fds h.1 h.2]
        refine congrArg (List.cons (-1)) (ih hslots ?_)
        rintro ⟨l₁, fd, l₂, rfl, h0, hset, hrecv, hfree⟩
        have hne : fdBit fd ≠ fdBit (-1) := by
          intro hbit
          rw [isset_clr_self hbit] at hset
          cases hset
        have h7 : fd ≠ 7 := by
          rintro rfl
          exact hne rfl
        rw [isset_clr hne] at hset
        exact hl ⟨-1 :: l₁, fd, l₂, rfl, h0, hset, hrecv, fun h => absurd h h7⟩
      · exact absurd ⟨[], x, fds, rfl, hx, h.1, h.2, fun _ => List.not_mem_nil⟩ hl
    · obtain ⟨us, hs, -⟩ := sweep_keep c i fds h
      rw [hs]
      refine congrArg (List.cons x) (ih hslots ?_)
      rintro ⟨l₁, fd, l₂, rfl, h0, hset, hrecv, hfree⟩
      refine hl ⟨x :: l₁, fd, l₂, rfl, h0, hset, hrecv, fun h7 hmem => ?_⟩
      rcases List.mem_cons.mp hmem with hx | hmem
      · subst hx h7
        exact h ⟨hset, recv_free r⟩
      · exact hfree h7 hmem

/-- **The client that leaves is in no slot afterwards.** -/
theorem sweep_drops {r : Round} {fd : Int} {l₂ l₁ : List Int} : ∀ {f : FdSet} {c : Int} {i : Nat},
    (∀ x ∈ l₁ ++ fd :: l₂, Slot x) → Distinct (l₁ ++ fd :: l₂) → 0 ≤ fd → FD_ISSET fd f = true →
      r.recv fd ≤ 0 → (fd = 7 → -1 ∉ l₁) → fd ∉ (sweep r f c i (l₁ ++ fd :: l₂)).slots := by
  induction l₁ with
  | nil =>
    intro f c i _ hd h0 hset hrecv _ hmem
    obtain ⟨hfd, -⟩ := List.pairwise_cons.mp hd
    rw [List.nil_append, sweep_leave c i l₂ hset hrecv] at hmem
    rcases List.mem_cons.mp hmem with hmem | hmem
    · omega
    · rcases mem_sweep hmem with hmem | hmem
      · omega
      · have hneg := hfd fd hmem rfl
        omega
  | cons x l₁ ih =>
    intro f c i hslot hd h0 hset hrecv hfree hmem
    obtain ⟨hx, hd'⟩ := List.pairwise_cons.mp hd
    have hne : fd ≠ x := by
      rintro rfl
      have hneg := hx fd (List.mem_append_right _ List.mem_cons_self) rfl
      omega
    have hslots : ∀ y ∈ l₁ ++ fd :: l₂, Slot y := fun y hy =>
      hslot y (List.mem_cons_of_mem _ hy)
    have hfree' : fd = 7 → -1 ∉ l₁ := fun h7 hm => hfree h7 (List.mem_cons_of_mem _ hm)
    by_cases h : FD_ISSET x f = true ∧ r.recv x ≤ 0
    · have hbit : fdBit fd ≠ fdBit x := by
        rcases hslots fd (List.mem_append_right _ List.mem_cons_self) with hfd | ⟨-, h8⟩
        · omega
        · refine fdBit_ne h0 h8 (hslot x List.mem_cons_self) hne fun h7 hx1 => ?_
          subst hx1
          exact hfree h7 List.mem_cons_self
      rw [List.cons_append, sweep_leave c i _ h.1 h.2] at hmem
      rcases List.mem_cons.mp hmem with hmem | hmem
      · omega
      · exact ih hslots hd' h0 (by rw [isset_clr hbit, hset]) hrecv hfree' hmem
    · obtain ⟨us, hs, -⟩ := sweep_keep c i (l₁ ++ fd :: l₂) h
      rw [List.cons_append, hs] at hmem
      rcases List.mem_cons.mp hmem with hmem | hmem
      · exact hne hmem
      · exact ih hslots hd' h0 hset hrecv hfree' hmem

/-! ### The table -/

/-- What holds of every server, whatever its clients do. -/
structure Table (TCPServerFd : Int) (s : Server) : Prop where
  length : s.lan_client.length = TCP_SERVER_CLIENT_MAX_NUM
  count : s.client_connect_count ≤ 0
  sock : TCPServerFd ≤ s.max_sock
  slot : ∀ fd ∈ s.lan_client, fd = -1 ∨ 0 ≤ fd ∧ fd < 8 ∧ fd ≠ TCPServerFd ∧ fd ≤ s.max_sock ∧
    fd ∈ s.accepted
  distinct : Distinct s.lan_client
  accepted : ∀ fd ∈ s.accepted, 0 ≤ fd

namespace Table

variable {TCPServerFd : Int} {s : Server}

theorem slots (h : Table TCPServerFd s) : ∀ fd ∈ s.lan_client, Slot fd := fun fd hfd =>
  (h.slot fd hfd).imp id fun h => ⟨h.1, h.2.1⟩

end Table

theorem boot_table (TCPServerFd : Int) : Table TCPServerFd (boot TCPServerFd) where
  length := rfl
  count := Int.le_refl _
  sock := Int.le_refl _
  slot := fun _ hfd => .inl (List.eq_of_mem_replicate hfd)
  distinct := by
    change Distinct [-1, -1, -1, -1, -1]
    unfold Distinct
    decide
  accepted := fun _ hfd => absurd hfd List.not_mem_nil

/-! ### One round -/

section

variable {TCPServerFd : Int} {s s' : Server} {r : Round}

/-- The set behind `select`. -/
def scanned (TCPServerFd : Int) (s : Server) (r : Round) : FdSet :=
  selscan (s.max_sock + 1) (setClients (FD_SET TCPServerFd FD_ZERO) s.lan_client) r.ready

def swept (TCPServerFd : Int) (s : Server) (r : Round) : Sweep :=
  sweep r (scanned TCPServerFd s r) s.client_connect_count 0 s.lan_client

def afterSweep (TCPServerFd : Int) (s : Server) (r : Round) : Server :=
  { s with
    lan_client := (swept TCPServerFd s r).slots
    client_connect_count := (swept TCPServerFd s r).count
    uses := s.uses ++ loopUses ++ (swept TCPServerFd s r).uses }

theorem scanned_eq {fd : Int} (h0 : 0 ≤ fd) (h8 : fd < 8) (hs : fd ≤ s.max_sock)
    (h : fd = TCPServerFd ∨ fd ∈ s.lan_client) :
    FD_ISSET fd (scanned TCPServerFd s r) = r.ready (fdBit fd) := by
  have hmax : ((fdBit fd : Nat) : Int) < s.max_sock + 1 := by
    rw [fdBit_eq h0 h8]
    omega
  have hset : setClients (FD_SET TCPServerFd FD_ZERO) s.lan_client (fdBit fd) = true := by
    rcases h with rfl | h
    · exact setClients_iff.mpr (.inl (if_pos rfl))
    · exact setClients_iff.mpr (.inr ⟨fd, h, h0, rfl⟩)
  change (decide (((fdBit fd : Nat) : Int) < s.max_sock + 1) && _ && r.ready (fdBit fd)) = _
  rw [hset, decide_eq_true hmax, Bool.true_and, Bool.true_and]

/-- **What a round can do.** -/
theorem step_cases (hcount : s.client_connect_count ≤ 0) (h : step TCPServerFd s r = some s') :
    Answers TCPServerFd s r ∧
      (r.ret ≤ 0 ∧ s' = { s with uses := s.uses ++ loopUses } ∨
      0 < r.ret ∧ ¬(FD_ISSET TCPServerFd (swept TCPServerFd s r).fdset = true ∧ 0 ≤ r.new_fd) ∧
        s' = afterSweep TCPServerFd s r ∨
      0 < r.ret ∧ FD_ISSET TCPServerFd (swept TCPServerFd s r).fdset = true ∧ 0 ≤ r.new_fd ∧
        s'.accepted = r.new_fd :: s.accepted ∧
        s'.client_connect_count = (swept TCPServerFd s r).count ∧
        s'.max_sock = (if s.max_sock < r.new_fd + 1 then r.new_fd + 1 else s.max_sock) ∧
        s'.lan_client =
          (swept TCPServerFd s r).slots.set (freeSlot (swept TCPServerFd s r).slots) r.new_fd ∧
        s'.uses = (afterSweep TCPServerFd s r).uses ++
          [.index (freeSlot (swept TCPServerFd s r).slots), .recv r.new_fd]) := by
  rw [step] at h
  by_cases hguard : Indexed s ∧ Answers TCPServerFd s r
  · rw [if_pos hguard, Option.some.injEq, round] at h
    refine ⟨hguard.2, ?_⟩
    by_cases hneg : r.ret < 0
    · rw [if_pos hneg] at h
      exact .inl ⟨by omega, h.symm⟩
    · rw [if_neg hneg] at h
      by_cases hzero : r.ret = 0
      · rw [if_pos hzero] at h
        exact .inl ⟨by omega, h.symm⟩
      · rw [if_neg hzero] at h
        have hret : 0 < r.ret := by omega
        change (if FD_ISSET TCPServerFd (swept TCPServerFd s r).fdset = true then
          if r.new_fd < 0 then afterSweep TCPServerFd s r
          else takeClient (afterSweep TCPServerFd s r) r.new_fd
          else afterSweep TCPServerFd s r) = s' at h
        by_cases hset : FD_ISSET TCPServerFd (swept TCPServerFd s r).fdset = true
        · rw [if_pos hset] at h
          by_cases hnew : r.new_fd < 0
          · rw [if_pos hnew] at h
            exact .inr (.inl ⟨hret, fun hc => by omega, h.symm⟩)
          · have hle : (swept TCPServerFd s r).count ≤ s.client_connect_count := sweep_count_le
            have hlt : (afterSweep TCPServerFd s r).client_connect_count <
                (TCP_SERVER_CLIENT_MAX_NUM : Int) := by
              change (swept TCPServerFd s r).count < 5
              omega
            rw [if_neg hnew, takeClient, if_pos hlt] at h
            subst h
            exact .inr (.inr ⟨hret, hset, by omega, rfl, rfl, rfl, rfl, rfl⟩)
        · rw [if_neg hset] at h
          exact .inr (.inl ⟨hret, fun hc => hset hc.1, h.symm⟩)
  · rw [if_neg hguard] at h
    cases h

theorem distinct_set {n : Int} {fds : List Int} : ∀ {i : Nat}, Distinct fds → n ∉ fds →
    Distinct (fds.set i n) := by
  induction fds with
  | nil => intro i h _; exact h
  | cons x fds ih =>
    intro i h hn
    obtain ⟨hx, hfds⟩ := List.pairwise_cons.mp h
    have hn' : n ∉ fds := fun hm => hn (List.mem_cons_of_mem _ hm)
    cases i with
    | zero =>
      refine List.pairwise_cons.mpr ⟨fun y hy hny => ?_, hfds⟩
      rw [hny] at hn'
      exact absurd hy hn'
    | succ i =>
      refine List.pairwise_cons.mpr ⟨fun y hy hxy => ?_, ih hfds hn'⟩
      rcases List.mem_or_eq_of_mem_set hy with hy | rfl
      · exact hx y hy hxy
      · subst hxy
        exact absurd List.mem_cons_self hn

namespace Table

theorem mem_accepted (h : Table TCPServerFd s) {fd : Int} (h0 : 0 ≤ fd) (hfd : fd ∈ s.lan_client) :
    fd ∈ s.accepted := by
  rcases h.slot fd hfd with rfl | ⟨-, -, -, -, h⟩
  · omega
  · exact h

theorem mem_swept (h : Table TCPServerFd s) {fd : Int} (h0 : 0 ≤ fd)
    (hfd : fd ∈ (swept TCPServerFd s r).slots) : fd ∈ s.accepted := by
  rcases mem_sweep hfd with rfl | hfd
  · omega
  · exact h.mem_accepted h0 hfd

theorem slot_swept (h : Table TCPServerFd s) : ∀ fd ∈ (swept TCPServerFd s r).slots,
    fd = -1 ∨ 0 ≤ fd ∧ fd < 8 ∧ fd ≠ TCPServerFd ∧ fd ≤ s.max_sock ∧ fd ∈ s.accepted := by
  intro fd hfd
  rcases mem_sweep hfd with hfd | hfd
  · exact .inl hfd
  · exact h.slot fd hfd

end Table

/-- **The table's invariant holds whatever happens.** -/
theorem step_table (h : Table TCPServerFd s) (hs : step TCPServerFd s r = some s') :
    Table TCPServerFd s' := by
  have hle : (swept TCPServerFd s r).count ≤ s.client_connect_count := sweep_count_le
  have hlen : (swept TCPServerFd s r).slots.length = TCP_SERVER_CLIENT_MAX_NUM :=
    sweep_length.trans h.length
  have hcount : (swept TCPServerFd s r).count ≤ 0 := Int.le_trans hle h.count
  obtain ⟨hans, ⟨-, rfl⟩ | ⟨-, -, rfl⟩ | ⟨-, -, hnew, hacc, hcnt, hsock, hcl, -⟩⟩ :=
    step_cases h.count hs
  · exact ⟨h.length, h.count, h.sock, h.slot, h.distinct, h.accepted⟩
  · exact ⟨hlen, hcount, h.sock, h.slot_swept, sweep_distinct h.distinct, h.accepted⟩
  · obtain ⟨h8, hsrv, hfresh⟩ : r.new_fd < FD_SETSIZE ∧ r.new_fd ≠ TCPServerFd ∧
        r.new_fd ∉ s.accepted := by
      rcases hans with hans | hans
      · omega
      · exact hans
    have hmax : s.max_sock ≤ s'.max_sock ∧ r.new_fd ≤ s'.max_sock := by
      rw [hsock]
      by_cases hlt : s.max_sock < r.new_fd + 1
      · rw [if_pos hlt]
        omega
      · rw [if_neg hlt]
        omega
    have hsock' := h.sock
    refine ⟨?_, by rw [hcnt]; exact hcount, by omega, fun fd hfd => ?_, ?_, fun fd hfd => ?_⟩
    · rw [hcl, List.length_set]
      exact hlen
    · rw [hacc]
      rw [hcl] at hfd
      rcases List.mem_or_eq_of_mem_set hfd with hfd | rfl
      · rcases h.slot_swept fd hfd with rfl | ⟨h1, h2, h3, h4, h5⟩
        · exact .inl rfl
        · exact .inr ⟨h1, h2, h3, by omega, List.mem_cons_of_mem _ h5⟩
      · exact .inr ⟨hnew, h8, hsrv, hmax.2, List.mem_cons_self⟩
    · rw [hcl]
      exact distinct_set (sweep_distinct h.distinct) fun hm => hfresh (h.mem_swept hnew hm)
    · rw [hacc] at hfd
      rcases List.mem_cons.mp hfd with rfl | hfd
      · exact hnew
      · exact h.accepted fd hfd

/-! ### The sixth client -/

theorem freeSlot_lt {fds : List Int} (h : -1 ∈ fds) : freeSlot fds < fds.length :=
  List.findIdx_lt_length_of_exists ⟨-1, h, rfl⟩

theorem freeSlot_eq {fds : List Int} (h : -1 ∉ fds) : freeSlot fds = fds.length := by
  refine List.findIdx_eq_length_of_false fun fd hfd => ?_
  rw [beq_eq_false_iff_ne]
  rintro rfl
  exact h hfd

theorem inTable_append {us vs : List Use} (hu : ∀ u ∈ us, u.InTable) (hv : ∀ u ∈ vs, u.InTable) :
    ∀ u ∈ us ++ vs, u.InTable := fun u hm =>
  (List.mem_append.mp hm).elim (hu u) (hv u)

theorem loopUses_inTable : ∀ u ∈ loopUses, u.InTable := by decide

/-- What `recv` and the set say of a taken slot, from the answers of lwIP. -/
theorem ready_iff (h : Table TCPServerFd s) {fd : Int} (h0 : 0 ≤ fd) (hfd : fd ∈ s.lan_client) :
    FD_ISSET fd (scanned TCPServerFd s r) = r.ready (fdBit fd) := by
  rcases h.slot fd hfd with rfl | ⟨-, h8, -, hmax, -⟩
  · omega
  · exact scanned_eq h0 h8 hmax (.inr hfd)

theorem full_stays (h : Table TCPServerFd s) (hfull : Full s r) :
    (swept TCPServerFd s r).fdset = scanned TCPServerFd s r ∧
      (swept TCPServerFd s r).slots = s.lan_client := by
  have hstay := sweep_stay (r := r) (f := scanned TCPServerFd s r) (c := s.client_connect_count)
    (i := 0) fun fd hfd hset => by
      obtain ⟨h0, hrecv⟩ := hfull fd hfd
      rw [ready_iff h h0 hfd] at hset
      rw [recv_taken h0]
      exact hrecv hset
  exact ⟨hstay.1, hstay.2.2⟩

theorem not_full_frees (h : Table TCPServerFd s) (hfull : ¬Full s r) :
    -1 ∈ (swept TCPServerFd s r).slots := by
  refine sweep_free ?_
  by_contra hne
  refine hfull fun fd hfd => ?_
  have hfree : fd ≠ -1 := fun hf => hne ⟨fd, hfd, .inl hf⟩
  have h0 : 0 ≤ fd := (h.slots fd hfd).elim (fun hf => absurd hf hfree) And.left
  refine ⟨h0, fun hready => ?_⟩
  by_contra hrecv
  refine hne ⟨fd, hfd, .inr ⟨?_, ?_⟩⟩
  · rw [ready_iff h h0 hfd]
    exact hready
  · rw [recv_taken h0]
    omega

theorem server_ready (h : Table TCPServerFd s) (h0 : 0 ≤ TCPServerFd) (h8 : TCPServerFd < 8) :
    FD_ISSET TCPServerFd (scanned TCPServerFd s r) = r.ready (fdBit TCPServerFd) :=
  scanned_eq h0 h8 h.sock (.inl rfl)

theorem full_not_free (h : Full s r) : -1 ∉ s.lan_client := fun hm => by
  have h0 := (h _ hm).1
  omega

theorem afterSweep_inTable (h : Table TCPServerFd s) (hi : Indexed s) :
    Indexed (afterSweep TCPServerFd s r) :=
  inTable_append (inTable_append hi loopUses_inTable)
    (sweep_inTable (Nat.le_of_eq ((Nat.zero_add _).trans h.length)))

/-- When the loop over the slots is not followed by an `accept` that succeeds, no sixth client
was accepted. -/
theorem noSixth_of_not_admitted (h : Table TCPServerFd s) (h0 : 0 ≤ TCPServerFd)
    (h8 : TCPServerFd < 8)
    (hno : ¬(FD_ISSET TCPServerFd (swept TCPServerFd s r).fdset = true ∧ 0 ≤ r.new_fd)) :
    NoSixth TCPServerFd s r := by
  rintro ⟨⟨-, hready, hnew⟩, hfull⟩
  refine hno ⟨?_, hnew⟩
  rw [(full_stays h hfull).1, server_ready h h0 h8]
  exact hready

theorem noSixth_iff_of_admitted (h : Table TCPServerFd s) (h0 : 0 ≤ TCPServerFd)
    (h8 : TCPServerFd < 8) (hret : 0 < r.ret)
    (hset : FD_ISSET TCPServerFd (swept TCPServerFd s r).fdset = true) (hnew : 0 ≤ r.new_fd) :
    NoSixth TCPServerFd s r ↔ -1 ∈ (swept TCPServerFd s r).slots := by
  constructor
  · intro hno
    refine not_full_frees h fun hfull => hno ⟨⟨hret, ?_, hnew⟩, hfull⟩
    rw [← server_ready h h0 h8]
    exact sweep_fdset_le hset
  · rintro hm ⟨-, hfull⟩
    rw [(full_stays h hfull).2] at hm
    exact full_not_free hfull hm

/-- **The indexes stay in the table exactly without a sixth client.** -/
theorem indexed_iff (h : Table TCPServerFd s) (hi : Indexed s) (h0 : 0 ≤ TCPServerFd)
    (h8 : TCPServerFd < 8) (hs : step TCPServerFd s r = some s') :
    Indexed s' ↔ NoSixth TCPServerFd s r := by
  have hafter : Indexed (afterSweep TCPServerFd s r) := afterSweep_inTable h hi
  obtain ⟨-, ⟨hret, rfl⟩ | ⟨-, hno, rfl⟩ | ⟨hret, hset, hnew, -, -, -, -, huses⟩⟩ :=
    step_cases h.count hs
  · refine iff_of_true (inTable_append hi loopUses_inTable) ?_
    rintro ⟨⟨hpos, -⟩, -⟩
    omega
  · exact iff_of_true hafter (noSixth_of_not_admitted h h0 h8 hno)
  · rw [noSixth_iff_of_admitted h h0 h8 hret hset hnew]
    have hlen : (swept TCPServerFd s r).slots.length = TCP_SERVER_CLIENT_MAX_NUM :=
      sweep_length.trans h.length
    rw [Indexed, huses]
    constructor
    · intro hin
      by_contra hm
      have hlt : freeSlot (swept TCPServerFd s r).slots < TCP_SERVER_CLIENT_MAX_NUM :=
        hin (.index _) (List.mem_append_right _ List.mem_cons_self)
      rw [freeSlot_eq hm, hlen] at hlt
      exact Nat.lt_irrefl _ hlt
    · intro hm
      refine inTable_append hafter fun u hu => ?_
      rcases List.mem_cons.mp hu with rfl | hu
      · change freeSlot (swept TCPServerFd s r).slots < TCP_SERVER_CLIENT_MAX_NUM
        rw [← hlen]
        exact freeSlot_lt hm
      · rw [List.mem_singleton.mp hu]
        exact trivial

/-! ### The clients that leave -/

theorem leavesIn_iff (h : Table TCPServerFd s) (hret : 0 < r.ret) :
    LeavesIn r (scanned TCPServerFd s r) s.lan_client ↔ Leaves s r := by
  constructor
  · rintro ⟨l₁, fd, l₂, hl, h0, hset, hrecv, hfree⟩
    have hfd : fd ∈ s.lan_client := by
      rw [hl]
      exact List.mem_append_right _ List.mem_cons_self
    rw [ready_iff h h0 hfd] at hset
    rw [recv_taken h0] at hrecv
    exact ⟨hret, l₁, fd, l₂, hl, h0, hset, hrecv, hfree⟩
  · rintro ⟨-, l₁, fd, l₂, hl, h0, hset, hrecv, hfree⟩
    have hfd : fd ∈ s.lan_client := by
      rw [hl]
      exact List.mem_append_right _ List.mem_cons_self
    rw [← ready_iff h h0 hfd] at hset
    rw [← recv_taken h0] at hrecv
    exact ⟨l₁, fd, l₂, hl, h0, hset, hrecv, hfree⟩

theorem swept_eq (h : Table TCPServerFd s) (hret : 0 < r.ret) (hl : ¬Leaves s r) :
    (swept TCPServerFd s r).slots = s.lan_client :=
  sweep_slots_eq h.slots fun hin => hl ((leavesIn_iff h hret).mp hin)

theorem swept_drops (h : Table TCPServerFd s) (hret : 0 < r.ret) (hl : Leaves s r) :
    ∃ fd ∈ s.accepted, 0 ≤ fd ∧ fd ∉ (swept TCPServerFd s r).slots := by
  obtain ⟨l₁, fd, l₂, heq, h0, hset, hrecv, hfree⟩ := (leavesIn_iff h hret).mpr hl
  have hfd : fd ∈ s.lan_client := by
    rw [heq]
    exact List.mem_append_right _ List.mem_cons_self
  refine ⟨fd, h.mem_accepted h0 hfd, h0, ?_⟩
  have hslots := h.slots
  have hdistinct := h.distinct
  rw [heq] at hslots hdistinct
  rw [swept, heq]
  exact sweep_drops hslots hdistinct h0 hset hrecv hfree

theorem count_set {n : Int} {fds : List Int} (h : -1 ∈ fds) (hn : n ∉ fds) {fd : Int}
    (hfd : fd ≠ -1) : (fds.set (freeSlot fds) n).count fd = if fd = n then 1 else fds.count fd := by
  have hlt : freeSlot fds < fds.length := freeSlot_lt h
  have hat : fds[freeSlot fds] = -1 := by
    have hbeq := List.findIdx_getElem (p := fun fd => fd == -1) (w := hlt)
    exact beq_iff_eq.mp hbeq
  have hold : (fds[freeSlot fds] == fd) = false := by
    rw [hat, beq_eq_false_iff_ne]
    exact hfd.symm
  rw [List.count_set hlt, hold]
  by_cases heq : fd = n
  · subst heq
    rw [if_pos rfl, List.count_eq_zero_of_not_mem hn]
    simp only [beq_self_eq_true, if_true, Bool.false_eq_true, if_false]
  · have hne : (n == fd) = false := beq_eq_false_iff_ne.mpr fun hn => heq hn.symm
    rw [if_neg heq, hne]
    simp only [Bool.false_eq_true, if_false, Nat.sub_zero, Nat.add_zero]

theorem not_accounted {fd : Int} (hacc : fd ∈ s.accepted) (hm : fd ∉ s.lan_client) :
    ¬Accounted s := fun h => by
  have hone := h fd hacc
  rw [List.count_eq_zero_of_not_mem hm] at hone
  omega

/-- **Every open client has its slot exactly while no client leaves and no sixth one comes.** -/
theorem accounted_iff (h : Table TCPServerFd s) (hp : Accounted s) (h0 : 0 ≤ TCPServerFd)
    (h8 : TCPServerFd < 8) (hs : step TCPServerFd s r = some s') :
    Accounted s' ↔ NoneLost TCPServerFd s r := by
  have hpos : ∀ fd ∈ s.accepted, fd ≠ -1 := by
    rintro fd hfd rfl
    exact absurd (h.accepted _ hfd) (by decide)
  obtain ⟨hans, ⟨hret, rfl⟩ | ⟨hret, hno, rfl⟩ | ⟨hret, hset, hnew, hacc, -, -, hcl, -⟩⟩ :=
    step_cases h.count hs
  · refine iff_of_true hp ⟨?_, ?_⟩
    · rintro ⟨⟨hpos, -⟩, -⟩
      omega
    · rintro ⟨hpos, -⟩
      omega
  · have hsix := noSixth_of_not_admitted h h0 h8 hno
    constructor
    · intro hp'
      refine ⟨hsix, fun hl => ?_⟩
      obtain ⟨fd, hfd, -, hm⟩ := swept_drops h hret hl
      exact not_accounted (s := afterSweep TCPServerFd s r) hfd hm hp'
    · rintro ⟨-, hl⟩ fd hfd
      change (swept TCPServerFd s r).slots.count fd = 1
      rw [swept_eq h hret hl]
      exact hp fd hfd
  · have hfresh : r.new_fd ∉ s.accepted := by
      rcases hans with hans | hans
      · omega
      · exact hans.2.2
    have hslots : r.new_fd ∉ (swept TCPServerFd s r).slots := fun hm =>
      hfresh (h.mem_swept hnew hm)
    rw [NoneLost, noSixth_iff_of_admitted h h0 h8 hret hset hnew]
    constructor
    · intro hp'
      refine ⟨?_, fun hl => ?_⟩
      · by_contra hm
        refine not_accounted (?_ : r.new_fd ∈ s'.accepted) ?_ hp'
        · rw [hacc]
          exact List.mem_cons_self
        · rw [hcl, freeSlot_eq hm, List.set_eq_of_length_le (Nat.le_refl _)]
          exact hslots
      · obtain ⟨fd, hfd, -, hm⟩ := swept_drops h hret hl
        refine not_accounted (?_ : fd ∈ s'.accepted) ?_ hp'
        · rw [hacc]
          exact List.mem_cons_of_mem _ hfd
        · rw [hcl]
          intro hset
          rcases List.mem_or_eq_of_mem_set hset with hset | rfl
          · exact hm hset
          · exact hfresh hfd
    · rintro ⟨hm, hl⟩ fd hfd
      rw [hacc] at hfd
      rw [hcl, count_set hm hslots]
      · by_cases heq : fd = r.new_fd
        · rw [if_pos heq]
        · rw [if_neg heq, swept_eq h hret hl]
          exact hp fd ((List.mem_cons.mp hfd).resolve_left heq)
      · rcases List.mem_cons.mp hfd with rfl | hfd
        · omega
        · exact hpos fd hfd

/-! ### The counter -/

/-- No client has come yet. -/
structure Empty (TCPServerFd : Int) (s : Server) : Prop where
  slots : s.lan_client = List.replicate TCP_SERVER_CLIENT_MAX_NUM (-1)
  count : s.client_connect_count = 0
  sock : TCPServerFd ≤ s.max_sock
  accepted : s.accepted = []

namespace Empty

theorem scanned_iff (h : Empty TCPServerFd s) (h0 : 0 ≤ TCPServerFd) (h8 : TCPServerFd < 8)
    {n : Int} : FD_ISSET n (scanned TCPServerFd s r) = true ↔
      fdBit n = fdBit TCPServerFd ∧ r.ready (fdBit TCPServerFd) = true := by
  constructor
  · intro hset
    obtain ⟨hset, hready⟩ := Bool.and_eq_true_iff.mp hset
    obtain ⟨-, hset⟩ := Bool.and_eq_true_iff.mp hset
    have hbit : fdBit n = fdBit TCPServerFd := by
      rcases setClients_iff.mp hset with hset | ⟨fd, hfd, hpos, -⟩
      · by_contra hne
        rw [FD_SET, if_neg hne] at hset
        cases hset
      · rw [h.slots] at hfd
        rw [List.eq_of_mem_replicate hfd] at hpos
        exact absurd hpos (by decide)
    rw [← hbit]
    exact ⟨rfl, hready⟩
  · rintro ⟨hbit, hready⟩
    have hsrv : FD_ISSET TCPServerFd (scanned TCPServerFd s r) = r.ready (fdBit TCPServerFd) :=
      scanned_eq h0 h8 h.sock (.inl rfl)
    rw [FD_ISSET, hbit]
    exact hsrv.trans hready

theorem stays (h : Empty TCPServerFd s) (hset : FD_ISSET (-1) (scanned TCPServerFd s r) ≠ true) :
    (swept TCPServerFd s r).fdset = scanned TCPServerFd s r ∧
      (swept TCPServerFd s r).count = s.client_connect_count ∧
      (swept TCPServerFd s r).slots = s.lan_client := by
  refine sweep_stay fun fd hfd hfdset => ?_
  rw [h.slots] at hfd
  rw [List.eq_of_mem_replicate hfd] at hfdset
  exact absurd hfdset hset

/-- A free slot is taken for a client that leaves when the bit of the descriptor 7 is set. -/
theorem counts_down (h : Empty TCPServerFd s)
    (hset : FD_ISSET (-1) (scanned TCPServerFd s r) = true) : (swept TCPServerFd s r).count < 0 := by
  have hslots : s.lan_client = -1 :: List.replicate 4 (-1) := h.slots
  rw [swept, hslots, sweep_leave _ _ _ hset (recv_free r), h.count]
  exact Int.lt_of_le_of_lt sweep_count_le (by decide)

theorem counted (h : Empty TCPServerFd s) : Counted s := by
  rw [Counted, h.slots, h.count]
  decide

end Empty

theorem boot_empty (TCPServerFd : Int) : Empty TCPServerFd (boot TCPServerFd) :=
  ⟨rfl, rfl, Int.le_refl _, rfl⟩

theorem fdBit_eq_seven_iff (h0 : 0 ≤ TCPServerFd) (h8 : TCPServerFd < 8) :
    fdBit (-1) = fdBit TCPServerFd ↔ TCPServerFd = 7 := by
  rw [fdBit_free, fdBit_eq h0 h8]
  omega

theorem empty_of_noClient (h : Empty TCPServerFd s) (h0 : 0 ≤ TCPServerFd) (h8 : TCPServerFd < 8)
    (hok : NoClient TCPServerFd s r) (hs : step TCPServerFd s r = some s') :
    Empty TCPServerFd s' := by
  have hstays : 0 < r.ret → (swept TCPServerFd s r).count = s.client_connect_count ∧
      (swept TCPServerFd s r).slots = s.lan_client := by
    intro hret
    refine (h.stays fun hset => ?_).2
    obtain ⟨hbit, hready⟩ := (h.scanned_iff h0 h8).mp hset
    rw [fdBit_eq_seven_iff h0 h8] at hbit
    rcases hok with hok | hok | ⟨hok, -⟩
    · omega
    · rw [hok] at hready
      cases hready
    · exact hok hbit
  obtain ⟨-, ⟨-, rfl⟩ | ⟨hret, -, rfl⟩ | ⟨hret, hset, hnew, -⟩⟩ :=
    step_cases (Int.le_of_eq h.count) hs
  · exact ⟨h.slots, h.count, h.sock, h.accepted⟩
  · obtain ⟨h1, h2⟩ := hstays hret
    exact ⟨h2.trans h.slots, h1.trans h.count, h.sock, h.accepted⟩
  · obtain ⟨-, hready⟩ := (h.scanned_iff h0 h8).mp (sweep_fdset_le hset)
    rcases hok with hok | hok | ⟨-, hok⟩
    · omega
    · rw [hok] at hready
      cases hready
    · omega

/-- **The counter is right exactly while no client comes.** -/
theorem counted_iff (h : Empty TCPServerFd s) (h0 : 0 ≤ TCPServerFd) (h8 : TCPServerFd < 8)
    (hs : step TCPServerFd s r = some s') : Counted s' ↔ NoClient TCPServerFd s r := by
  refine ⟨fun hc => ?_, fun hok => (empty_of_noClient h h0 h8 hok hs).counted⟩
  by_contra hok
  have hret : 0 < r.ret := by
    by_contra hret
    exact hok (.inl (by omega))
  have hready : r.ready (fdBit TCPServerFd) = true := by
    by_contra hready
    exact hok (.inr (.inl (Bool.not_eq_true _ ▸ hready)))
  have hnew : TCPServerFd = 7 ∨ 0 ≤ r.new_fd := by
    by_contra hnew
    exact hok (.inr (.inr ⟨by omega, by omega⟩))
  have hcount : s'.client_connect_count = (swept TCPServerFd s r).count := by
    obtain ⟨-, ⟨hidle, -⟩ | ⟨-, -, rfl⟩ | ⟨-, -, -, -, hcnt, -⟩⟩ :=
      step_cases (Int.le_of_eq h.count) hs
    · omega
    · rfl
    · exact hcnt
  by_cases hset : FD_ISSET (-1) (scanned TCPServerFd s r) = true
  · have hneg := h.counts_down hset
    have hpos := hc.2.1
    omega
  · obtain ⟨hfd, hcnt, hslots⟩ := h.stays hset
    have h7 : TCPServerFd ≠ 7 := fun h7 => hset ((h.scanned_iff h0 h8).mpr
      ⟨(fdBit_eq_seven_iff h0 h8).mpr h7, hready⟩)
    have hsrv : FD_ISSET TCPServerFd (swept TCPServerFd s r).fdset = true := by
      rw [hfd]
      exact (h.scanned_iff h0 h8).mpr ⟨rfl, hready⟩
    have hpos : 0 ≤ r.new_fd := hnew.resolve_left h7
    obtain ⟨-, ⟨hidle, -⟩ | ⟨-, hno, -⟩ | ⟨-, -, -, -, -, -, hcl, -⟩⟩ :=
      step_cases (Int.le_of_eq h.count) hs
    · omega
    · exact hno ⟨hsrv, hpos⟩
    · have hone := hc.1
      rw [hcount, hcnt, h.count, hcl, hslots, h.slots] at hone
      have hat : (List.replicate TCP_SERVER_CLIENT_MAX_NUM (-1)).set
          (freeSlot (List.replicate TCP_SERVER_CLIENT_MAX_NUM (-1))) r.new_fd =
            r.new_fd :: List.replicate 4 (-1) := rfl
      rw [hat, List.countP_cons_of_pos (p := fun client_fd => decide (client_fd ≥ 0))
        (decide_eq_true hpos)] at hone
      omega

/-- **Nothing is kept by a round that has something to do.** -/
theorem kept_iff (h : Empty TCPServerFd s) (hp : Kept s) (hs : step TCPServerFd s r = some s') :
    Kept s' ↔ Idle s r := by
  have hfirst : .isset (-1) ∈ (swept TCPServerFd s r).uses := by
    have hslots : s.lan_client = -1 :: List.replicate 4 (-1) := h.slots
    rw [swept, hslots]
    exact isset_mem_sweep
  have hbad : .isset (-1) ∈ s'.uses → ¬Kept s' := fun hm hk =>
    absurd (hk.tested _ hm) (by decide : ¬(-1 : Int) ≥ 0)
  have hafter : .isset (-1) ∈ (afterSweep TCPServerFd s r).uses := List.mem_append_right _ hfirst
  obtain ⟨-, ⟨hret, rfl⟩ | ⟨hret, -, rfl⟩ | ⟨hret, -, -, -, -, -, -, huses⟩⟩ :=
    step_cases (Int.le_of_eq h.count) hs
  · refine iff_of_true ⟨hp.counted, inTable_append hp.indexed loopUses_inTable, hp.accounted,
      fun u hu => ?_⟩ hret
    rcases List.mem_append.mp hu with hu | hu
    · exact hp.tested u hu
    · obtain ⟨i, -, rfl⟩ := List.mem_map.mp hu
      exact trivial
  · refine iff_of_false (hbad hafter) fun hidle => ?_
    rw [Idle] at hidle
    omega
  · refine iff_of_false (hbad ?_) fun hidle => ?_
    · rw [huses]
      exact List.mem_append_left _ hafter
    · rw [Idle] at hidle
      omega

theorem boot_kept (TCPServerFd : Int) : Kept (boot TCPServerFd) where
  counted := (boot_empty TCPServerFd).counted
  indexed := loopUses_inTable
  accounted := fun _ hfd => absurd hfd List.not_mem_nil
  tested := fun u hu => by
    obtain ⟨i, -, rfl⟩ := List.mem_map.mp hu
    exact trivial

end

/-- **What each part of the bookkeeping needs of the rounds.**  All of it together needs that
`select` never reports anything; the counter, that no client is accepted; the indexes, that no
client is accepted while five are there; the descriptors, that moreover no client leaves. -/
theorem table_kept (TCPServerFd : Int) (h0 : 0 ≤ TCPServerFd) (h8 : TCPServerFd < FD_SETSIZE) :
    Exact (Boot TCPServerFd) (step TCPServerFd) Idle Kept ∧
    Exact (Boot TCPServerFd) (step TCPServerFd) (NoClient TCPServerFd) Counted ∧
    Exact (Boot TCPServerFd) (step TCPServerFd) (NoSixth TCPServerFd) Indexed ∧
    Exact (Boot TCPServerFd) (step TCPServerFd) (NoneLost TCPServerFd) Accounted := by
  refine ⟨exact_of_step (I := Empty TCPServerFd) ?_ ?_ ?_,
    exact_of_step (I := Empty TCPServerFd) ?_ ?_ ?_,
    exact_of_step (I := Table TCPServerFd) ?_ ?_ ?_,
    exact_of_step (I := Table TCPServerFd) ?_ ?_ ?_⟩
  · rintro s rfl
    exact ⟨boot_empty TCPServerFd, boot_kept TCPServerFd⟩
  · intro s r s' h _ hok hs
    exact empty_of_noClient h h0 h8 (.inl hok) hs
  · intro s r s' h hp hs
    exact kept_iff h hp hs
  · rintro s rfl
    exact ⟨boot_empty TCPServerFd, (boot_empty TCPServerFd).counted⟩
  · intro s r s' h _ hok hs
    exact empty_of_noClient h h0 h8 hok hs
  · intro s r s' h _ hs
    exact counted_iff h h0 h8 hs
  · rintro s rfl
    exact ⟨boot_table TCPServerFd, loopUses_inTable⟩
  · intro s r s' h _ _ hs
    exact step_table h hs
  · intro s r s' h hp hs
    exact indexed_iff h hp h0 h8 hs
  · rintro s rfl
    exact ⟨boot_table TCPServerFd, (boot_kept TCPServerFd).accounted⟩
  · intro s r s' h _ _ hs
    exact step_table h hs
  · intro s r s' h hp hs
    exact accounted_iff h hp h0 h8 hs

theorem table_kept_server_zero :
    ((0 : Int) ≤ 0 ∧ (0 : Int) < FD_SETSIZE) ∧
    Exact (Boot 0) (step 0) Idle Kept ∧
    Exact (Boot 0) (step 0) (NoClient 0) Counted ∧
    Exact (Boot 0) (step 0) (NoSixth 0) Indexed ∧
    Exact (Boot 0) (step 0) (NoneLost 0) Accounted :=
  ⟨by decide, table_kept 0 (by decide) (by decide)⟩

/-- The server, descriptor 0, is ready, and `accept` returns `fd`. -/
def arrival (fd : Int) : Round := ⟨1, fun b => b == 0, fun _ => 1, fd⟩

/-- The client `fd` has closed its connection. -/
def departure (fd : Int) : Round := ⟨1, fun b => b == fdBit fd, fun _ => 0, -1⟩

set_option maxRecDepth 4000 in
/-- A client comes and leaves, and six more come: the counter stands at -1 with five slots
taken, the first client's descriptor is open and in no slot, and the last client is put into
`lan_client[5]`. -/
theorem sixth_client :
    ∃ s, run (step 0) (boot 0) [arrival 1, departure 1, arrival 2, arrival 3, arrival 4, arrival 5,
        arrival 6, arrival 7] = some s ∧
      s.client_connect_count = -1 ∧ s.lan_client = [2, 3, 4, 5, 6] ∧ .index 5 ∈ s.uses ∧
      (1 ∈ s.accepted ∧ 1 ∉ s.lan_client) ∧ .isset (-1) ∈ s.uses ∧ ¬Kept s := by
  refine ⟨_, rfl, rfl, rfl, by decide, by decide, by decide, fun h => ?_⟩
  exact absurd h.counted.2.1 (by decide)

end Nl6621.Lan.Clients
