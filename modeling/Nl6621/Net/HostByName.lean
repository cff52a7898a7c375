import Mathlib.Tactic.Common
import Nl6621.Lib.Runs

/-!
# Resolving the server's name

`NuAgent_GetHostByName` asks the resolver for an address.  The answer comes at once, or the call
is in progress and `NuAgent_ServerFound` is called by another task some time later, or never.
The callback leaves its answer in `domain_ipaddr` and `domain_flag` and posts a semaphore, for
which the function waits ten ticks.

All three outlive the call.  A `World` has them, the place in the current call, and the lookups
of earlier calls whose callback has still to come.  `returns` is the record of all calls that
have returned: what was returned, the address whose string was written, and the address that
the resolver had reported for that call when its wait was over.

`own_answer` says when every call returns its own answer: the callbacks come within the wait of
their own call, a wait that times out finds `domain_flag` cleared, and an immediate answer is
the address that is in `domain_ipaddr` already.
-/

namespace Nl6621.Net.HostByName

open Lib

/-! ### The functions of the source -/

/-- Where the current call stands. -/
inductive Pc where
  | idle
  /-- the lookup is in progress, up to the end of `OSSemPend` -/
  | wait
  /-- behind `OSSemPend`, in front of `domain_flag == 1` -/
  | test
  /-- in front of the `memcpy` of the address string -/
  | copy
deriving DecidableEq, Repr

/-- What `dns_gethostbyname` returns; with `ERR_OK` there is an address in `ip_addr`. -/
inductive DnsErr where
  | ERR_OK (ip_addr : UInt32) | ERR_INPROGRESS | other
deriving DecidableEq, Repr

/-- A call that has returned. -/
structure Return where
  ret : Int
  /-- the address whose string is in `IPAddress`, if one was written -/
  IPAddress : Option UInt32
  /-- the address that the resolver reported for this call before the end of the wait -/
  report : Option UInt32
deriving DecidableEq, Repr

structure World where
  domain_ipaddr : UInt32
  domain_flag : UInt32
  /-- the count of `pdomainSem` -/
  sem : Nat
  pc : Pc
  /-- the callback of the current call has not come yet -/
  awaited : Bool
  /-- what was reported for the current call before the end of its wait -/
  report : Option UInt32
  /-- the number of earlier calls whose callback has not come yet -/
  overdue : Nat
  returns : List Return
deriving DecidableEq, Repr

/-- `OSSemPost`. -/
def World.post (w : World) : World := if w.sem < 65535 then { w with sem := w.sem + 1 } else w

/-- The callback, with the address it points to; an address 0 is a failure, as no address is. -/
def nuAgentServerFound (ipaddr : Option UInt32) (w : World) : World :=
  match ipaddr with
  | some addr =>
    if addr ≠ 0 then World.post { w with domain_ipaddr := addr, domain_flag := 1 }
    else World.post { w with domain_flag := 0 }
  | none => World.post { w with domain_flag := 0 }

/-- The address that a callback reports. -/
def reported : Option UInt32 → Option UInt32
  | some addr => if addr ≠ 0 then some addr else none
  | none => none

/-- The call returns; a callback that has not come yet is overdue from now on. -/
def World.return (ret : Int) (IPAddress : Option UInt32) (w : World) : World :=
  { w with
    pc := .idle
    awaited := false
    overdue := if w.awaited then w.overdue + 1 else w.overdue
    returns := w.returns ++ [⟨ret, IPAddress, w.report⟩] }

inductive Act where
  /-- `NuAgent_GetHostByName` is called, and `dns_gethostbyname` in it -/
  | call (err : DnsErr)
  /-- the callback of the current call -/
  | found (ipaddr : Option UInt32)
  /-- the callback of an earlier call -/
  | foundLate (ipaddr : Option UInt32)
  /-- `OSSemPend` takes the semaphore -/
  | pend
  /-- `OSSemPend` comes back after ten ticks -/
  | timeout
  | test
  | copy
deriving DecidableEq, Repr

def step (w : World) : Act → Option World
  | .call err =>
    if w.pc = .idle then
      match err with
      | .ERR_OK ip_addr =>
        some (World.return 0 (some w.domain_ipaddr) { w with report := some ip_addr })
      | .ERR_INPROGRESS => some { w with pc := .wait, awaited := true, report := none }
      | .other => some (World.return (-1) none { w with report := none })
    else none
  | .found ipaddr =>
    if w.awaited then
      let w' := nuAgentServerFound ipaddr w
      some { w' with
        awaited := false
        report := if w.pc = .wait then reported ipaddr else w.report }
    else none
  | .foundLate ipaddr =>
    if 0 < w.overdue then
      let w' := nuAgentServerFound ipaddr w
      some { w' with overdue := w.overdue - 1 }
    else none
  | .pend => if w.pc = .wait ∧ 0 < w.sem then some { w with pc := .test, sem := w.sem - 1 } else none
  | .timeout => if w.pc = .wait ∧ w.sem = 0 then some { w with pc := .test } else none
  | .test =>
    if w.pc = .test then
      if w.domain_flag = 1 then some { w with pc := .copy } else some (w.return (-1) none)
    else none
  | .copy => if w.pc = .copy then some (w.return 0 (some w.domain_ipaddr)) else none

/-- At the start, behind `InitDomainSem`. -/
def boot : World := ⟨0, 0, 0, .idle, false, none, 0, []⟩

def Init (w : World) : Prop := w = boot

/-! ### The property -/

/-- The call returned its own answer: a success comes with the address that was reported for
it, and without a report the call fails. -/
structure Return.Own (r : Return) : Prop where
  address : r.ret = 0 → ∃ addr, r.report = some addr ∧ r.IPAddress = some addr
  failure : r.report = none → r.ret = -1

/-- Callbacks come within the wait of their call, a wait that times out finds the flag cleared,
and an immediate answer is the address that the variable has already. -/
def Prompt (w : World) : Act → Prop
  | .call (.ERR_OK ip_addr) => ip_addr = w.domain_ipaddr
  | .found _ => w.pc = .wait
  | .foundLate _ => False
  | .timeout => w.domain_flag ≠ 1
  | _ => True

/-! ### The invariant -/

/-- What the flag and the variable say belongs to the current call. -/
def World.Answered (w : World) : Prop := w.domain_flag = 1 → w.report = some w.domain_ipaddr

structure AnswerInv (w : World) : Prop where
  /-- the semaphore is posted by the callback of the current call only -/
  sem : w.sem = if w.pc = .wait ∧ w.awaited = false then 1 else 0
  waited : w.pc = .wait → w.awaited = false → w.Answered
  silent : w.awaited = true → w.report = none
  test : w.pc = .test → w.Answered
  copy : w.pc = .copy → w.report = some w.domain_ipaddr
  idle : w.pc = .idle → w.awaited = false
  returns : ∀ r ∈ w.returns, r.Own

theorem answerInv_boot : AnswerInv boot where
  sem := rfl
  waited h := by cases h
  silent h := by cases h
  test h := by cases h
  copy h := by cases h
  idle _ := rfl
  returns r hr := by cases hr

theorem own_append {rs : List Return} {r : Return} (h : ∀ r ∈ rs, r.Own) (hr : r.Own) :
    ∀ r' ∈ rs ++ [r], r'.Own := by
  intro r' hmem
  rcases List.mem_append.mp hmem with hmem | hmem
  · exact h r' hmem
  · rw [List.mem_singleton.mp hmem]
    exact hr

/-- A call returns, having left the semaphore at 0. -/
theorem AnswerInv.return {w : World} {ret : Int} {IPAddress : Option UInt32}
    (hs : w.sem = 0) (hr : ∀ r ∈ w.returns, r.Own) (hown : (Return.mk ret IPAddress w.report).Own) :
    AnswerInv (w.return ret IPAddress) where
  sem := by
    rw [if_neg fun h => absurd h.1 (by simp [World.return])]
    exact hs
  waited h := by cases h
  silent h := by cases h
  test h := by cases h
  copy h := by cases h
  idle _ := rfl
  returns := own_append hr hown

/-- The callback stores its answer, and posts. -/
theorem nuAgentServerFound_spec (ipaddr : Option UInt32) {w : World} (hs : w.sem = 0) :
    ∃ addr flag, nuAgentServerFound ipaddr w =
        { w with domain_ipaddr := addr, domain_flag := flag, sem := 1 } ∧
      (flag = 1 → reported ipaddr = some addr) := by
  have hpost : ∀ w : World, w.sem = 0 → w.post = { w with sem := 1 } := by
    intro w hw
    rw [World.post, if_pos (by omega), hw]
  cases ipaddr with
  | none => exact ⟨w.domain_ipaddr, 0, hpost _ hs, fun h => absurd h (by decide)⟩
  | some addr =>
    rw [nuAgentServerFound, reported]
    by_cases h : addr ≠ 0
    · simp only [if_pos h]
      exact ⟨addr, 1, hpost _ hs, fun _ => rfl⟩
    · simp only [if_neg h]
      exact ⟨w.domain_ipaddr, 0, hpost _ hs, fun h => absurd h (by decide)⟩

theorem step_answerInv {w w' : World} {a : Act} (h : AnswerInv w) (hok : Prompt w a)
    (hs : step w a = some w') : AnswerInv w' := by
  have hsem := h.sem
  cases a with
  | call err =>
    simp only [step, Option.ite_none_right_eq_some] at hs
    obtain ⟨hpc, hs⟩ := hs
    rw [if_neg fun hw => absurd (hpc ▸ hw.1) (by decide)] at hsem
    cases err with
    | ERR_OK ip_addr =>
      cases hs
      refine AnswerInv.return hsem h.returns ⟨fun _ => ⟨ip_addr, rfl, ?_⟩, fun hn => ?_⟩
      · rw [show ip_addr = w.domain_ipaddr from hok]
      · cases hn
    | ERR_INPROGRESS =>
      cases hs
      refine ⟨?_, fun _ ha => ?_, fun _ => rfl, fun ht => ?_, fun hc => ?_, fun hi => ?_, h.returns⟩
      · rw [if_neg fun hw => absurd hw.2 (by simp)]
        exact hsem
      · cases ha
      · cases ht
      · cases hc
      · cases hi
    | other =>
      cases hs
      exact AnswerInv.return hsem h.returns ⟨fun h0 => absurd h0 (by simp), fun _ => rfl⟩
  | found ipaddr =>
    simp only [step, Option.ite_none_right_eq_some, Option.some.injEq] at hs
    obtain ⟨haw, rfl⟩ := hs
    have hpc : w.pc = .wait := hok
    rw [if_neg fun hw => absurd (haw.symm.trans hw.2) (by decide)] at hsem
    obtain ⟨addr, flag, heq, hflag⟩ := nuAgentServerFound_spec ipaddr hsem
    rw [heq, if_pos hpc]
    refine ⟨?_, fun _ _ => hflag, fun ha => ?_, fun ht => ?_, fun hc => ?_, fun _ => rfl, h.returns⟩
    · exact (if_pos ⟨hpc, rfl⟩).symm
    · cases ha
    · exact absurd (hpc.symm.trans ht) (by decide)
    · exact absurd (hpc.symm.trans hc) (by decide)
  | foundLate ipaddr => exact hok.elim
  | pend =>
    simp only [step, Option.ite_none_right_eq_some, Option.some.injEq] at hs
    obtain ⟨⟨hpc, hpos⟩, rfl⟩ := hs
    have haw : w.awaited = false := by
      by_contra haw
      rw [if_neg fun hw => haw hw.2] at hsem
      omega
    rw [if_pos ⟨hpc, haw⟩] at hsem
    refine ⟨?_, fun hw => ?_, h.silent, fun _ => h.waited hpc haw, fun hc => ?_, fun hi => ?_,
      h.returns⟩
    · rw [if_neg fun hw => absurd hw.1 (by simp)]
      show w.sem - 1 = 0
      omega
    · cases hw
    · cases hc
    · cases hi
  | timeout =>
    simp only [step, Option.ite_none_right_eq_some, Option.some.injEq] at hs
    obtain ⟨⟨hpc, hzero⟩, rfl⟩ := hs
    refine ⟨?_, fun hw => ?_, h.silent, fun _ hf => absurd hf hok, fun hc => ?_, fun hi => ?_,
      h.returns⟩
    · rw [if_neg fun hw => absurd hw.1 (by simp)]
      exact hzero
    · cases hw
    · cases hc
    · cases hi
  | test =>
    simp only [step, Option.ite_none_right_eq_some] at hs
    obtain ⟨hpc, hs⟩ := hs
    rw [if_neg fun hw => absurd (hpc ▸ hw.1) (by decide)] at hsem
    by_cases hf : w.domain_flag = 1
    · rw [if_pos hf] at hs
      cases hs
      refine ⟨?_, fun hw => ?_, h.silent, fun ht => ?_, fun _ => h.test hpc hf, fun hi => ?_,
        h.returns⟩
      · rw [if_neg fun hw => absurd hw.1 (by simp)]
        exact hsem
      · cases hw
      · cases ht
      · cases hi
    · rw [if_neg hf] at hs
      cases hs
      exact AnswerInv.return hsem h.returns ⟨fun h0 => absurd h0 (by simp), fun _ => rfl⟩
  | copy =>
    simp only [step, Option.ite_none_right_eq_some, Option.some.injEq] at hs
    obtain ⟨hpc, rfl⟩ := hs
    rw [if_neg fun hw => absurd (hpc ▸ hw.1) (by decide)] at hsem
    have hrep := h.copy hpc
    refine AnswerInv.return hsem h.returns ⟨fun _ => ⟨w.domain_ipaddr, hrep, rfl⟩, fun hn => ?_⟩
    rw [hrep] at hn
    cases hn

/-! ### The law -/

/-- **Every call returns its own answer**, in every run in which callbacks come within the wait
of their own call, no wait times out while the flag is set, and every immediate answer is the
address that the variable has already. -/
theorem own_answer {w : World} (h : Reach Init step Prompt w) : ∀ r ∈ w.returns, r.Own := by
  refine AnswerInv.returns (h.invariant ?_ ?_)
  · intro w hw
    rw [hw]
    exact answerInv_boot
  · intro w a w' hinv hok hs
    exact step_answerInv hinv hok hs

/-- A lookup that is answered by a callback within its wait. -/
theorem own_answer_found : (Return.mk 0 (some 0x0100007f) (some 0x0100007f)).Own := by
  have hreach : Reach Init step Prompt ⟨0x0100007f, 1, 0, .idle, false, some 0x0100007f, 0,
      [⟨0, some 0x0100007f, some 0x0100007f⟩]⟩ := by
    refine reach_run [.call .ERR_INPROGRESS, .found (some 0x0100007f), .pend, .test, .copy]
      (.start rfl) ?_ rfl
    refine ⟨trivial, ?_⟩
    rintro _ ⟨⟩
    refine ⟨rfl, ?_⟩
    rintro _ ⟨⟩
    refine ⟨trivial, ?_⟩
    rintro _ ⟨⟩
    refine ⟨trivial, ?_⟩
    rintro _ ⟨⟩
    exact ⟨trivial, fun _ _ => trivial⟩
  exact own_answer hreach _ List.mem_cons_self

/-- After a lookup that succeeded, a second one whose callback does not come in time returns the
address of the first.  And an answer from the resolver's cache is not looked at. -/
theorem stale_answer :
    (∃ w, Reach Init step Anything w ∧ ∃ r ∈ w.returns, r.report = none ∧ ¬ r.Own) ∧
      ∃ w, Reach Init step Anything w ∧ ∃ r ∈ w.returns, r.report = some 0x0100007f ∧ ¬ r.Own := by
  constructor
  · refine ⟨⟨0x0100007f, 1, 0, .idle, false, none, 1,
      [⟨0, some 0x0100007f, some 0x0100007f⟩, ⟨0, some 0x0100007f, none⟩]⟩, ?_, ?_⟩
    · exact reach_run [.call .ERR_INPROGRESS, .found (some 0x0100007f), .pend, .test, .copy,
        .call .ERR_INPROGRESS, .timeout, .test, .copy] (.start rfl) (along_anything _ _) rfl
    · exact ⟨_, .tail _ (.head _), rfl, fun h => absurd (h.failure rfl) (by decide)⟩
  · refine ⟨⟨0, 0, 0, .idle, false, some 0x0100007f, 0, [⟨0, some 0, some 0x0100007f⟩]⟩, ?_, ?_⟩
    · exact reach_run [.call (.ERR_OK 0x0100007f)] (.start rfl) (along_anything _ _) rfl
    · refine ⟨_, .head _, rfl, fun h => ?_⟩
      obtain ⟨addr, hrep, haddr⟩ := h.address rfl
      rw [← hrep] at haddr
      exact absurd haddr (by decide)

end Nl6621.Net.HostByName
