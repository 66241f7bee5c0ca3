/-
# `IshGo.Guest.Futexes` — the waiters of a futex, first come, first woken

The table of waiters is one for all tasks, and each task keeps a record of what it waits for.
A `FutexTrace` is a run as far as futexes are concerned: calls of `futex` and attempts to resume
a task that waits, in any order, with anything in between that leaves the table and the records
alone (`Apart`), new tasks included.
-/
import IshGo.Guest.Scheduler
import IshGo.Kernel.FutexQueue

namespace IshGo.Guest

open I386 Kernel Lib Function List

variable {es : List FutexEvent} {host : Host} {q : WaitQueue U32 Nat} {w w' : World}
variable {w₀ : World} {i : Nat}
variable {B : Nat → Option FutexBlock} {F : Futexes}

/-! ## Traces -/

inductive FutexEvent where
  /-- The thread has joined the queue, from the address space with this number. -/
  | waited (thread : Nat) (uaddr : U32) (space : Nat) (deadline : Option Nat)
  /-- A call of `FUTEX_WAKE` has returned. -/
  | woke (thread : Nat) (uaddr : U32) (limit : Nat) (result : U32)
  /-- An attempt to resume the thread, after its deadline or not; what the wait returns if it
  is over. -/
  | tried (thread : Nat) (uaddr : U32) (late : Bool) (result : Option U32)
  deriving DecidableEq, Repr

open FutexEvent

namespace World

def records (w : World) (j : Nat) : Option FutexBlock :=
  if j < w.procs.next then (w.proc j).kern.blockedFutex else none

/-- `futex`, called by the process `i`. -/
def futexCall (w : World) (host : Host) (i : Nat) (uaddr op value timeoutAddr : U32) : World :=
  w.leave i ((w.enter i).futexCall host uaddr op value timeoutAddr)

/-- `TryResumeBlockedFutex`, for the process `i`. -/
def resumeFutex (w : World) (host : Host) (i : Nat) : Bool × World :=
  let r := (w.enter i).tryResumeBlockedFutex host
  (r.1, w.leave i r.2)

/-- What the process has in `EAX`. -/
def result (w : World) (i : Nat) : U32 := (w.proc i).cpu.regs EAX

def waitEvents (w w' : World) (i : Nat) : List FutexEvent :=
  match w.records i, w'.records i with
  | none, some b => [.waited i b.uaddr (w.proc i).space b.deadline]
  | _, _ => []

def callEvents (w : World) (host : Host) (i : Nat) (uaddr op value timeoutAddr : U32) :
    List FutexEvent :=
  let w' := w.futexCall host i uaddr op value timeoutAddr
  if uaddr &&& 3 ≠ 0 then []
  else if op &&& ~~~128 = 0 then w.waitEvents w' i
  else if op &&& ~~~128 = 1 then [.woke i uaddr value.toNat (w'.result i)]
  else []

def resumeEvents (w : World) (host : Host) (i : Nat) : List FutexEvent :=
  match w.records i with
  | none => []
  | some b =>
    let r := w.resumeFutex host i
    [.tried i b.uaddr (b.deadline.any (· ≤ host.now w.objs.tick))
      (if r.1 then some (r.2.result i) else none)]

def Aware (w : World) : Prop := ∀ j < w.procs.next, (w.proc j).kern.schedulerAware = true

/-- Nothing has happened to the waiters.  New tasks wait for nothing. -/
structure Apart (w w' : World) : Prop where
  waiters : w'.futex.waiters = w.futex.waiters
  closed : ∀ c < w.futex.next, w'.futex.closed c = w.futex.closed c
  channels : w.futex.next ≤ w'.futex.next
  records : w'.records = w.records
  aware : w.Aware → w'.Aware

inductive FutexTrace (host : Host) (w₀ : World) : List FutexEvent → World → Prop
  | refl : FutexTrace host w₀ [] w₀
  | call {es : List FutexEvent} {w : World} {i : Nat} (uaddr op value timeoutAddr : U32) :
      FutexTrace host w₀ es w → i < w.procs.next →
      FutexTrace host w₀ (es ++ w.callEvents host i uaddr op value timeoutAddr)
        (w.futexCall host i uaddr op value timeoutAddr)
  | resume {es : List FutexEvent} {w : World} {i : Nat} : FutexTrace host w₀ es w →
      i < w.procs.next → FutexTrace host w₀ (es ++ w.resumeEvents host i) (w.resumeFutex host i).2
  | other {es : List FutexEvent} {w w' : World} : FutexTrace host w₀ es w → Apart w w' →
      FutexTrace host w₀ es w'

/-- The task waits at `uaddr` and has not been woken. -/
def Waiting (w : World) (uaddr : U32) (j : Nat) : Prop := WaitsAt w.futex w.records false uaddr j

def Resumable (w : World) (j : Nat) : Prop := ∃ uaddr, WaitsAt w.futex w.records true uaddr j

structure NoWaiters (w : World) : Prop where
  waiters : ∀ u, w.futex.waiters u = []
  records : ∀ j, w.records j = none
  aware : w.Aware

end World

/-! ## The queue of a history -/

def FutexEvent.queued : FutexEvent → Option (WaitQueue.Event U32 Nat)
  | waited thread uaddr _ _ => some (.wait uaddr thread)
  | woke _ uaddr limit _ => some (.wake uaddr limit)
  | tried thread uaddr _ (some result) => some (.leave uaddr thread (result = 0))
  | tried _ _ _ none => none

def fifo (es : List FutexEvent) : WaitQueue U32 Nat :=
  WaitQueue.empty.run (es.filterMap queued)

def Along (P : WaitQueue U32 Nat → FutexEvent → Prop) (q : WaitQueue U32 Nat) :
    List FutexEvent → Prop
  | [] => True
  | e :: es => P q e ∧ Along P (q.run e.queued.toList) es

theorem run_queued_cons (q : WaitQueue U32 Nat) (e : FutexEvent) (es : List FutexEvent) :
    q.run ((e :: es).filterMap queued) =
      (q.run e.queued.toList).run (es.filterMap queued) := by
  rw [filterMap_cons]
  cases e.queued with
  | none => rfl
  | some e' => rfl

theorem along_append (P : WaitQueue U32 Nat → FutexEvent → Prop) (q : WaitQueue U32 Nat)
    (es es' : List FutexEvent) :
    Along P q (es ++ es') ↔
      Along P q es ∧ Along P (q.run (es.filterMap queued)) es' := by
  induction es generalizing q with
  | nil => simp [Along]
  | cons e es ih => rw [cons_append, Along, Along, ih, run_queued_cons, and_assoc]

theorem along_fifo_append (P : WaitQueue U32 Nat → FutexEvent → Prop) (es es' : List FutexEvent) :
    Along P .empty (es ++ es') ↔ Along P .empty es ∧ Along P (fifo es) es' :=
  along_append P .empty es es'

theorem fifo_append (es es' : List FutexEvent) : fifo (es ++ es') = (fifo es).run (es'.filterMap queued) := by
  rw [fifo, filterMap_append, WaitQueue.run_append, fifo]

namespace World

/-! ## Every trace -/

section Leave
variable {s : KState}

theorem records_leave (hi : i < w.procs.next) :
    (w.leave i s).records = update w.records i s.kern.blockedFutex := by
  funext j
  by_cases hj : j = i
  · subst hj
    rw [update_self, records, if_pos (show j < (w.leave j s).procs.next from hi)]
    exact congrArg (fun p : Process => p.kern.blockedFutex) (Heap.cell_set w.procs j _)
  rw [update_of_ne hj]
  have hproc : (w.leave i s).proc j = w.proc j := Heap.cell_set_ne w.procs _ hj
  rw [records, records, hproc]
  rfl

theorem records_enter (hi : i < w.procs.next) : (w.enter i).kern.blockedFutex = w.records i := by
  rw [records, if_pos hi]
  rfl

theorem records_leave_same (hi : i < w.procs.next)
    (hsame : s.kern.blockedFutex = (w.enter i).kern.blockedFutex) : (w.leave i s).records = w.records := by
  rw [records_leave hi, hsame, records_enter hi, update_eq_self]

theorem result_leave : (w.leave i s).result i = s.cpu.regs EAX :=
  congrArg (fun p : Process => p.cpu.regs EAX) (Heap.cell_set w.procs i _)

theorem Aware.leave (h : w.Aware) (hs : s.kern.schedulerAware = (w.proc i).kern.schedulerAware) :
    (w.leave i s).Aware := by
  intro j hj
  exact (Heap.map_cell_set (fun p : Process => p.kern.schedulerAware) w.procs hs j).trans (h j hj)

theorem Apart.leave (hi : i < w.procs.next) (hfutex : s.futex = w.futex)
    (hrecord : s.kern.blockedFutex = (w.enter i).kern.blockedFutex)
    (haware : s.kern.schedulerAware = (w.proc i).kern.schedulerAware) : Apart w (w.leave i s) := by
  refine ⟨congrArg Futexes.waiters hfutex, ?_, Nat.le_of_eq (congrArg Futexes.next hfutex).symm,
    records_leave_same hi hrecord, fun h => h.leave haware⟩
  intro c _
  exact congrFun (congrArg Futexes.closed hfutex) c

end Leave

theorem waitEvents_same (h : w'.records = w.records) : w.waitEvents w' i = [] := by
  unfold waitEvents
  rw [h]
  cases w.records i with
  | none => rfl
  | some b => rfl

inductive FutexDoes (host : Host) (w w' : World) : List FutexEvent → Prop
  | nothing : Apart w w' → FutexDoes host w w' []
  | joins {i : Nat} {uaddr value : U32} (deadline : Option Nat) : w.records i = none →
      (w.enter i).mem.read32 uaddr = .ok value →
      w'.futex = (w.futex.add uaddr).2 → w'.records = joined w.futex w.records i uaddr deadline →
      FutexDoes host w w' [.waited i uaddr (w.proc i).space deadline]
  | wakes {i n : Nat} {uaddr : U32} : w'.futex = afterWake uaddr n w.futex →
      w'.records = w.records → (w'.result i).toNat = min n (w.futex.waiters uaddr).length →
      FutexDoes host w w' [.woke i uaddr n (w'.result i)]
  | fails {i : Nat} {b : FutexBlock} : w.records i = some b → w.futex.closed b.waiter = false →
      Apart w w' → FutexDoes host w w' [.tried i b.uaddr false none]
  | returns {i : Nat} {b : FutexBlock} {late : Bool} {v : U32} : w.records i = some b →
      late = b.deadline.any (· ≤ host.now w.objs.tick) →
      (late = false → w.futex.closed b.waiter = true) → v = (if late then etimedout else 0) →
      w'.futex = w.futex.remove b.uaddr b.waiter →
      w'.records = update w.records i none →
      FutexDoes host w w' [.tried i b.uaddr late (some v)]

theorem FutexDoes.of_apart (h : Apart w w') : FutexDoes host w w' (w.waitEvents w' i) := by
  rw [waitEvents_same h.records]
  exact .nothing h

theorem does_wait (hi : i < w.procs.next) (ha : w.Aware)
    (hfresh : ∀ u, w.futex.next ∉ w.futex.waiters u) (host : Host) (uaddr value timeoutAddr : U32) :
    let w' := w.leave i ((w.enter i).futexWait host uaddr value timeoutAddr)
    FutexDoes host w w' (w.waitEvents w' i) ∧ w'.Aware := by
  have haware : (w.enter i).kern.schedulerAware = true := ha i hi
  dsimp only
  rcases futexWait_cases haware host uaddr value timeoutAddr with
    ⟨v, heq⟩ | ⟨_, heq⟩ | ⟨deadline, hnone, hread, _, heq⟩
  · rw [heq]
    have hapart : Apart w (w.leave i ((w.enter i).ret v)) := .leave hi rfl rfl rfl
    exact ⟨.of_apart hapart, hapart.aware ha⟩
  · -- a channel has come and gone
    rw [heq]
    have hapart : Apart w (w.leave i ({ w.enter i with
        futex := (w.futex.add uaddr).2.remove uaddr w.futex.next
        objs := w.objs.nextTick }.ret eagain)) := by
      refine ⟨?_, ?_, Nat.le_succ _, records_leave_same hi rfl, fun h => h.leave rfl⟩
      · have hadd : (w.futex.add uaddr).2.waiters uaddr = w.futex.waiters uaddr ++ [w.futex.next] :=
          update_self ..
        show update (update w.futex.waiters uaddr _) uaddr _ = _
        rw [update_idem, hadd, erase_append_right _ (hfresh uaddr),
          erase_cons_head, append_nil, update_eq_self]
      · intro c hc
        exact update_of_ne (Nat.ne_of_lt hc) ..
    exact ⟨.of_apart hapart, hapart.aware ha⟩
  · rw [records_enter hi] at hnone
    have hrecords : (w.leave i ((w.enter i).futexWait host uaddr value timeoutAddr)).records =
        joined w.futex w.records i uaddr deadline := by
      rw [records_leave hi, heq]
      rfl
    have hevents : w.waitEvents (w.leave i ((w.enter i).futexWait host uaddr value timeoutAddr)) i =
        [.waited i uaddr (w.proc i).space deadline] := by
      rw [waitEvents, hrecords, joined_self, hnone]
    rw [hevents]
    refine ⟨.joins deadline hnone hread ?_ hrecords, ha.leave (by rw [heq]; rfl)⟩
    rw [heq]
    rfl

theorem result_wake (w : World) (i : Nat) (uaddr value : U32) :
    ((w.leave i ((w.enter i).futexWake uaddr value)).result i).toNat =
      min value.toNat (w.futex.waiters uaddr).length := by
  have hle : min value.toNat (w.futex.waiters uaddr).length ≤ value.toNat := Nat.min_le_left ..
  rw [result_leave]
  exact (BitVec.toNat_ofNat _ _).trans (Nat.mod_eq_of_lt (Nat.lt_of_le_of_lt hle value.isLt))

theorem does_wake (hi : i < w.procs.next) (host : Host) (uaddr value : U32) :
    let w' := w.leave i ((w.enter i).futexWake uaddr value)
    FutexDoes host w w' [.woke i uaddr value.toNat (w'.result i)] :=
  .wakes rfl (records_leave_same hi rfl) (result_wake w i uaddr value)

theorem does_futexCall (hi : i < w.procs.next) (ha : w.Aware)
    (hfresh : ∀ u, w.futex.next ∉ w.futex.waiters u) (host : Host)
    (uaddr op value timeoutAddr : U32) :
    FutexDoes host w (w.futexCall host i uaddr op value timeoutAddr)
        (w.callEvents host i uaddr op value timeoutAddr) ∧
      (w.futexCall host i uaddr op value timeoutAddr).Aware := by
  have hret : ∀ v, Apart w (w.leave i ((w.enter i).ret v)) := fun v => .leave hi rfl rfl rfl
  unfold callEvents futexCall KState.futexCall
  split
  · exact ⟨.nothing (hret _), (hret _).aware ha⟩
  split
  · exact does_wait hi ha hfresh host uaddr value timeoutAddr
  · split
    · exact ⟨does_wake hi host uaddr value, ha.leave rfl⟩
    · exact ⟨.nothing (hret _), (hret _).aware ha⟩

theorem Apart.sim (ha : Apart w w') (h : FutexSim w.futex w.records q) : FutexSim w'.futex w'.records q := by
  rw [ha.records]
  exact h.apart ha.waiters ha.closed ha.channels

theorem does_resumeFutex (hi : i < w.procs.next) (host : Host) :
    FutexDoes host w (w.resumeFutex host i).2 (w.resumeEvents host i) := by
  unfold resumeEvents
  cases hb : w.records i with
  | none =>
    have hsame : (w.enter i).tryResumeBlockedFutex host = (true, w.enter i) := by
      rw [KState.tryResumeBlockedFutex, records_enter hi, hb]
    refine .nothing ?_
    rw [resumeFutex, hsame]
    exact .leave hi rfl rfl rfl
  | some b =>
    have hsome := tryResumeBlockedFutex_some ((records_enter hi).trans hb) host
    dsimp only at hsome ⊢
    have hdone : ∀ v : U32, (w.leave i (KState.futexDone
        { w.enter i with objs := w.objs.nextTick } b v)).records = update w.records i none :=
      fun v => records_leave hi
    cases hlate : b.deadline.any (· ≤ host.now w.objs.tick) with
    | true =>
      rw [show (w.enter i).objs = w.objs from rfl, hlate, if_pos rfl] at hsome
      rw [resumeFutex, hsome, result_leave]
      exact .returns hb hlate.symm (fun h => Bool.noConfusion h) rfl rfl (hdone _)
    | false =>
      rw [show (w.enter i).objs = w.objs from rfl, hlate, if_neg Bool.noConfusion] at hsome
      cases hclosed : w.futex.closed b.waiter with
      | true =>
        rw [show (w.enter i).futex = w.futex from rfl, hclosed, if_pos rfl] at hsome
        rw [resumeFutex, hsome, result_leave]
        exact .returns hb hlate.symm (fun _ => hclosed) rfl rfl (hdone _)
      | false =>
        rw [show (w.enter i).futex = w.futex from rfl, hclosed, if_neg Bool.noConfusion] at hsome
        rw [resumeFutex, hsome]
        exact .fails hb hclosed (.leave hi rfl rfl rfl)

theorem aware_tryResume (s : KState) (host : Host) :
    (s.tryResumeBlockedFutex host).2.kern.schedulerAware = s.kern.schedulerAware := by
  unfold KState.tryResumeBlockedFutex
  split
  · rfl
  dsimp only
  split
  · rfl
  · split <;> rfl

theorem FutexDoes.sim {es' : List FutexEvent}
    (h : FutexDoes host w w' es') (hsim : FutexSim w.futex w.records (fifo es)) :
    FutexSim w'.futex w'.records (fifo (es ++ es')) := by
  rw [fifo_append]
  cases h with
  | nothing hapart => exact hapart.sim hsim
  | joins deadline hnone _ hfutex hrecords =>
    rw [hfutex, hrecords]
    exact hsim.wait deadline hnone _
  | wakes hfutex hrecords _ =>
    rw [hfutex, hrecords]
    exact hsim.wake _ _
  | fails _ _ hapart => exact hapart.sim hsim
  | @returns _ _ _ v hb _ _ _ hfutex hrecords =>
    rw [hfutex, hrecords]
    exact hsim.leave hb (v = 0)

theorem FutexTrace.sim (h₀ : NoWaiters w₀)
    (h : FutexTrace host w₀ es w) : w.Aware ∧ FutexSim w.futex w.records (fifo es) := by
  induction h with
  | refl => exact ⟨h₀.aware, .empty h₀.waiters h₀.records⟩
  | call uaddr op value timeoutAddr _ hi ih =>
    obtain ⟨ha, hsim⟩ := ih
    obtain ⟨hdoes, ha'⟩ := does_futexCall hi ha hsim.next_not_mem host uaddr op value timeoutAddr
    exact ⟨ha', hdoes.sim hsim⟩
  | resume _ hi ih =>
    exact ⟨ih.1.leave (aware_tryResume _ host), (does_resumeFutex hi host).sim ih.2⟩
  | other _ hapart ih => exact ⟨hapart.aware ih.1, hapart.sim ih.2⟩

/-- What holds at the beginning, and is kept by whatever a step can do, holds along a trace. -/
theorem FutexTrace.of_does
    {P : List FutexEvent → World → Prop} (h₀ : NoWaiters w₀) (hrefl : P [] w₀)
    (hstep : ∀ {es es' : List FutexEvent} {w w' : World},
      FutexSim w.futex w.records (fifo es) → FutexDoes host w w' es' → P es w → P (es ++ es') w')
    (h : FutexTrace host w₀ es w) : P es w := by
  induction h with
  | refl => exact hrefl
  | call uaddr op value timeoutAddr h hi ih =>
    obtain ⟨ha, hsim⟩ := h.sim h₀
    exact hstep hsim (does_futexCall hi ha hsim.next_not_mem host _ _ _ _).1 ih
  | resume h hi ih => exact hstep (h.sim h₀).2 (does_resumeFutex hi host) ih
  | @other es w w' h hapart ih =>
    have hP := hstep (h.sim h₀).2 (.nothing hapart) ih
    rwa [append_nil] at hP

/-! ## What the events say -/

def Right (q : WaitQueue U32 Nat) : FutexEvent → Prop
  | .waited _ _ _ _ => True
  | .woke _ uaddr limit result => result.toNat = min limit (q.waiting uaddr).length
  | .tried thread uaddr late result =>
    result = if late then some etimedout else if thread ∈ q.woken uaddr then some 0 else none

theorem length_waiters (h : FutexSim F B q) (u : U32) : (F.waiters u).length = (q.waiting u).length := by
  rw [h.queue, length_map]

theorem mem_woken_iff (h : FutexSim F B q) {b : FutexBlock} (hb : B i = some b) :
    i ∈ q.woken b.uaddr ↔ F.closed b.waiter = true := by
  rw [h.woken]
  constructor
  · rintro ⟨c, hc, _, hclosed⟩
    rw [hb] at hc
    cases hc
    exact hclosed
  · intro hclosed
    exact ⟨b, hb, rfl, hclosed⟩

theorem FutexTrace.right (h₀ : NoWaiters w₀) (h : FutexTrace host w₀ es w) : Along Right .empty es := by
  refine FutexTrace.of_does (P := fun es _ => Along Right .empty es) h₀ trivial ?_ h
  intro es es' w w' hsim hdoes ih
  refine (along_fifo_append ..).mpr ⟨ih, ?_⟩
  cases hdoes with
  | nothing _ => trivial
  | joins _ _ _ _ _ => exact ⟨trivial, trivial⟩
  | wakes _ _ hresult => exact ⟨hresult.trans (by rw [length_waiters hsim]), trivial⟩
  | @fails i b hb hclosed _ =>
    have hnot : i ∉ (fifo es).woken b.uaddr := by
      rw [mem_woken_iff hsim hb, hclosed]
      exact Bool.false_ne_true
    exact ⟨by rw [Right, if_neg Bool.false_ne_true, if_neg hnot], trivial⟩
  | @returns i b late v hb _ hclosed hv _ _ =>
    refine ⟨?_, trivial⟩
    rw [Right, hv]
    cases late with
    | true => rfl
    | false =>
      have hmem : i ∈ (fifo es).woken b.uaddr := (mem_woken_iff hsim hb).mpr (hclosed rfl)
      rw [if_neg Bool.false_ne_true, if_neg Bool.false_ne_true, if_pos hmem]

end World

end IshGo.Guest
