/-
# `IshGo.Guest.Wakeups` — who is woken, and what a wait returns

For every trace of waits, wakes and attempts to resume (`FutexTrace`), from a state in which
nobody waits:

* Without deadlines, a wake takes the threads that have waited longest, as many as it says, and
  a wait ends after such a wake, once, with `0` (`futex_first_come`).  A wake of an address that
  is not aligned is refused.
* With deadlines, everyone counted by a wake has returned `0`, has returned `ETIMEDOUT`
  although counted, or still waits (`futex_ledger`).  The second happens when the attempt to
  resume comes after the deadline, because the deadline is looked at before the channel
  (`futex_kept_iff`).
-/
import IshGo.Guest.Futexes

namespace IshGo.Guest

open I386 Kernel Lib FutexEvent WaitQueue Host

variable {q : WaitQueue U32 Nat} {u : U32}
variable {i : Nat} {op : U32}
variable {host : Host} {w₀ w : World} {es : List FutexEvent}

namespace FutexEvent

/-- Thread `j` begins to wait. -/
def joins (j : Nat) : FutexEvent → Bool
  | waited thread _ _ _ => thread = j
  | _ => false

/-- A wait of thread `j` is over. -/
def ends (j : Nat) : FutexEvent → Bool
  | tried thread _ _ result => thread = j ∧ result.isSome
  | _ => false

end FutexEvent

namespace World

/-! ## Without deadlines -/

def Untimed (es : List FutexEvent) : Prop :=
  ∀ thread uaddr space deadline, .waited thread uaddr space deadline ∈ es → deadline = none

/-- What holds after the events `es`, and of the next call. -/
structure FirstCome (host : Host) (es : List FutexEvent) (w : World) : Prop where
  /-- The queue of the history is who waits, each thread once. -/
  waiting : ∀ u j, j ∈ (fifo es).waiting u ↔ w.Waiting u j
  once : ∀ u, ((fifo es).waiting u).Nodup
  /-- A thread can be resumed only if a wake has taken it. -/
  resumable : ∀ j, w.Resumable j ↔ ∃ u, j ∈ (fifo es).woken u
  wake : ∀ i < w.procs.next, ∀ u op value timeoutAddr : U32, op &&& ~~~128 = 1 → u &&& 3 = 0 →
    let w' := w.futexCall host i u op value timeoutAddr
    (w'.result i).toNat = min value.toNat ((fifo es).waiting u).length ∧
      ∀ j, w'.Resumable j ↔ w.Resumable j ∨ j ∈ ((fifo es).waiting u).take value.toNat
  unaligned : ∀ i < w.procs.next, ∀ u op value timeoutAddr : U32, u &&& 3 ≠ 0 →
    let w' := w.futexCall host i u op value timeoutAddr
    w'.result i = einval ∧ w'.futex = w.futex ∧ w'.records = w.records
  resume : ∀ i < w.procs.next, ∀ b, w.records i = some b →
    let r := w.resumeFutex host i
    (r.1 = true ↔ w.Resumable i) ∧ (r.1 = true → r.2.result i = 0 ∧ r.2.records i = none) ∧
      (r.1 = false → r.2.records = w.records)
  /-- Each wait ends once. -/
  counted : ∀ j, es.countP (ends j) + (w.records j).toList.length =
    es.countP (joins j)
  differs : ∀ i < w.procs.next, ∀ u op value timeoutAddr current : U32, op &&& ~~~128 = 0 →
    (w.enter i).mem.read32 u = .ok current → current ≠ value →
    let w' := w.futexCall host i u op value timeoutAddr
    w'.futex = w.futex ∧ w'.records = w.records

theorem FutexTrace.deadline (h₀ : NoWaiters w₀) (h : FutexTrace host w₀ es w) :
    ∀ j b, w.records j = some b → ∃ space, .waited j b.uaddr space b.deadline ∈ es := by
  refine FutexTrace.of_does
    (P := fun es w => ∀ j b, w.records j = some b → ∃ space, .waited j b.uaddr space b.deadline ∈ es)
    h₀ ?_ ?_ h
  · intro j b hb
    rw [h₀.records] at hb
    cases hb
  intro es es' w w' _ hdoes ih j b hb
  have hold : w.records j = some b → ∃ space, .waited j b.uaddr space b.deadline ∈ es ++ es' := by
    intro hb
    obtain ⟨space, hmem⟩ := ih j b hb
    exact ⟨space, List.mem_append_left _ hmem⟩
  cases hdoes with
  | nothing hapart => exact hold (hapart.records ▸ hb)
  | @joins i _ _ deadline _ _ _ hrecords =>
    rw [hrecords] at hb
    by_cases hj : j = i
    · subst hj
      rw [joined_self] at hb
      cases hb
      exact ⟨(w.proc j).space, by simp⟩
    · rw [joined_of_ne deadline hj] at hb
      exact hold hb
  | wakes _ hrecords _ => exact hold (hrecords ▸ hb)
  | fails _ _ hapart => exact hold (hapart.records ▸ hb)
  | @returns i _ _ _ _ _ _ _ _ hrecords =>
    rw [hrecords] at hb
    by_cases hj : j = i
    · subst hj
      rw [Function.update_self] at hb
      cases hb
    · rw [Function.update_of_ne hj] at hb
      exact hold hb

theorem FutexTrace.counted (h₀ : NoWaiters w₀) (h : FutexTrace host w₀ es w) (j : Nat) :
    es.countP (ends j) + (w.records j).toList.length =
      es.countP (joins j) := by
  refine FutexTrace.of_does (P := fun es w => es.countP (ends j) +
    (w.records j).toList.length = es.countP (joins j)) h₀ (by simp [h₀.records]) ?_ h
  intro es es' w w' _ hdoes ih
  cases hdoes with
  | nothing hapart => simpa [hapart.records] using ih
  | @joins i _ _ deadline hnone _ _ hrecords =>
    rw [hrecords]
    by_cases hj : j = i
    · subst hj
      rw [hnone] at ih
      simp [joined_self, joins, ends] at ih ⊢
      omega
    · rw [joined_of_ne deadline hj]
      simp [joins, ends, Ne.symm hj]
      omega
  | wakes _ hrecords _ => simpa [hrecords, joins, ends] using ih
  | fails _ _ hapart => simpa [hapart.records, joins, ends] using ih
  | @returns i b _ _ hb _ _ _ _ hrecords =>
    rw [hrecords]
    by_cases hj : j = i
    · subst hj
      rw [hb] at ih
      simp [joins, ends] at ih ⊢
      omega
    · rw [Function.update_of_ne hj]
      simp [joins, ends, Ne.symm hj]
      omega

/-! ### The calls -/

theorem futexCall_unaligned (i : Nat) (op value timeoutAddr : U32) (hu : u &&& 3 ≠ 0) :
    w.futexCall host i u op value timeoutAddr = w.leave i ((w.enter i).ret einval) := by
  rw [futexCall, KState.futexCall, if_pos hu]

theorem futexCall_wake (w : World) (host : Host) (i : Nat) (value timeoutAddr : U32)
    (hop : op &&& ~~~128 = 1) (hu : u &&& 3 = 0) :
    w.futexCall host i u op value timeoutAddr = w.leave i ((w.enter i).futexWake u value) := by
  rw [futexCall, KState.futexCall, if_neg (not_not.mpr hu), hop, if_neg (by decide), if_pos rfl]

theorem futexCall_differs (host : Host) {current value : U32} (i : Nat) (timeoutAddr : U32)
    (hop : op &&& ~~~128 = 0) (hread : (w.enter i).mem.read32 u = .ok current)
    (hdiff : current ≠ value) :
    ∃ v, w.futexCall host i u op value timeoutAddr = w.leave i ((w.enter i).ret v) := by
  by_cases hu : u &&& 3 ≠ 0
  · exact ⟨einval, futexCall_unaligned i op value timeoutAddr hu⟩
  · refine ⟨eagain, ?_⟩
    rw [futexCall, KState.futexCall, if_neg hu, if_pos hop, KState.futexWait, hread]
    exact congrArg (w.leave i) (if_pos hdiff)

theorem resumable_wake (hsim : FutexSim w.futex w.records q)
    (hi : i < w.procs.next) (u value : U32) (j : Nat) :
    (w.leave i ((w.enter i).futexWake u value)).Resumable j ↔
      w.Resumable j ∨ j ∈ (q.waiting u).take value.toNat := by
  have hrecords : (w.leave i ((w.enter i).futexWake u value)).records = w.records :=
    records_leave_same hi rfl
  have hafter : ∀ u', WaitsAt (w.leave i ((w.enter i).futexWake u value)).futex w.records true u' j ↔
      WaitsAt w.futex w.records true u' j ∨ u' = u ∧ j ∈ (q.waiting u).take value.toNat := by
    intro u'
    rw [← hsim.woken]
    exact hsim.waitsAt_woken_true u value.toNat u' j
  unfold Resumable
  rw [hrecords]
  simp only [hafter, exists_or, exists_eq_left]

/-- An attempt to resume a task that waits without a deadline. -/
theorem resumeFutex_untimed (hi : i < w.procs.next) {b : FutexBlock}
    (hb : w.records i = some b) (hdeadline : b.deadline = none) (host : Host) :
    let r := w.resumeFutex host i
    (r.1 = true ↔ w.Resumable i) ∧ (r.1 = true → r.2.result i = 0 ∧ r.2.records i = none) ∧
      (r.1 = false → r.2.records = w.records) := by
  have hsome := tryResumeBlockedFutex_some ((records_enter hi).trans hb) host
  have hresumable : w.Resumable i ↔ w.futex.closed b.waiter = true := by
    constructor
    · rintro ⟨u, c, hc, _, hclosed⟩
      rw [hb] at hc
      cases hc
      exact hclosed
    · intro hclosed
      exact ⟨b.uaddr, b, hb, rfl, hclosed⟩
  rw [hdeadline] at hsome
  dsimp only [Option.any] at hsome ⊢
  rw [if_neg Bool.false_ne_true, show (w.enter i).futex = w.futex from rfl] at hsome
  rw [resumeFutex, hsome, hresumable]
  cases w.futex.closed b.waiter with
  | true =>
    refine ⟨Iff.rfl, fun _ => ⟨result_leave, ?_⟩, fun h => Bool.noConfusion h⟩
    rw [if_pos rfl, records_leave hi]
    exact Function.update_self ..
  | false =>
    refine ⟨Iff.rfl, fun h => absurd h Bool.false_ne_true, fun _ => ?_⟩
    exact records_leave_same hi rfl

/-- Waits without deadlines: first come, first woken, and each wait ends once, with `0`, after a
wake. -/
theorem futex_first_come (host : Host) (w₀ w : World) (es : List FutexEvent) (h₀ : NoWaiters w₀)
    (h : FutexTrace host w₀ es w) (huntimed : Untimed es) : FirstCome host es w := by
  obtain ⟨ha, hsim⟩ := h.sim h₀
  refine ⟨hsim.waiting, fun u => (hsim.once u).1, ?_, ?_, ?_, ?_, h.counted h₀, ?_⟩
  · intro j
    exact exists_congr fun u => (hsim.woken u j).symm
  · intro i hi u op value timeoutAddr hop hu
    rw [futexCall_wake w host i value timeoutAddr hop hu]
    refine ⟨?_, resumable_wake hsim hi u value⟩
    rw [← length_waiters hsim]
    exact result_wake w i u value
  · intro i hi u op value timeoutAddr hu
    rw [futexCall_unaligned i op value timeoutAddr hu]
    exact ⟨result_leave, rfl, records_leave_same hi rfl⟩
  · intro i hi b hb
    obtain ⟨space, hmem⟩ := h.deadline h₀ i b hb
    exact resumeFutex_untimed hi hb (huntimed _ _ _ _ hmem) host
  intro i hi u op value timeoutAddr current hop hread hdiff
  obtain ⟨v, hv⟩ := futexCall_differs host i timeoutAddr hop hread hdiff
  rw [hv]
  exact ⟨rfl, records_leave_same hi rfl⟩

/-- Two threads of one program, in a memory of 16 bytes. -/
def twoThreads (data : U32 → U8) : World :=
  ((start ⟨CPU.new, { Memory.new 16 with data := data }, 0⟩ none Objects.new).clone 1 0 0 0 0 0 0).2

theorem twoThreads_noWaiters (data : U32 → U8) : NoWaiters (twoThreads data) := by
  refine ⟨fun u => rfl, ?_, ?_⟩
  · intro j
    match j with
    | 0 => rfl
    | 1 => rfl
    | j + 2 => exact if_neg (show ¬ j + 2 < 2 by omega)
  · intro j hj
    match j, hj with
    | 0, _ => rfl
    | 1, _ => rfl

/-- The second thread waits for a word that is `0`, and the first wakes it. -/
def wokenThread : World :=
  ((twoThreads fun _ => 0).futexCall silent 1 4 0 0 0).futexCall silent 0 4 1 7 0

theorem wokenThread_trace :
    FutexTrace silent (twoThreads fun _ => 0) [.waited 1 4 0 none, .woke 0 4 7 1]
      wokenThread := by
  have hstart : FutexTrace silent (twoThreads fun _ => 0) [] (twoThreads fun _ => 0) := .refl
  have hwait := hstart.call 4 0 0 0 (show 1 < (twoThreads fun _ => 0).procs.next by decide)
  exact hwait.call 4 1 7 0 (show 0 < (twoThreads fun _ => 0).procs.next by decide)

/-- A third thread. -/
def threeThreads : World := ((twoThreads fun _ => 0).clone 1 0 0 0 0 0 0).2

theorem threeThreads_noWaiters : NoWaiters threeThreads := by
  refine ⟨fun u => rfl, ?_, ?_⟩
  · intro j
    match j with
    | 0 | 1 | 2 => rfl
    | j + 3 => exact if_neg (show ¬ j + 3 < 3 by omega)
  · intro j hj
    match j, hj with
    | 0, _ | 1, _ | 2, _ => rfl

/-- Of two threads that wait, the one that came first is woken, and can be resumed. -/
def firstWoken : World :=
  ((threeThreads.futexCall silent 2 4 0 0 0).futexCall silent 1 4 0 0 0).futexCall silent 0 4 1 1 0

def firstWokenEvents : List FutexEvent := [.waited 2 4 0 none, .waited 1 4 0 none, .woke 0 4 1 1]

theorem firstWoken_trace : FutexTrace silent threeThreads firstWokenEvents firstWoken := by
  have hstart : FutexTrace silent threeThreads [] threeThreads := .refl
  have hsecond := hstart.call 4 0 0 0 (show 2 < threeThreads.procs.next by decide)
  have hboth := hsecond.call 4 0 0 0 (show 1 < threeThreads.procs.next by decide)
  exact hboth.call 4 1 1 0 (show 0 < threeThreads.procs.next by decide)

theorem futex_first_come_firstWoken :
    FirstCome silent firstWokenEvents firstWoken ∧ (fifo firstWokenEvents).waiting 4 = [1] ∧
      (firstWoken.resumeFutex silent 2).1 = true ∧ (firstWoken.resumeFutex silent 1).1 = false := by
  refine ⟨futex_first_come _ _ _ _ threeThreads_noWaiters firstWoken_trace ?_, by decide⟩
  intro thread uaddr space deadline hmem
  simp [firstWokenEvents] at hmem
  grind

/-- A wake of an address that is not aligned is refused. -/
theorem futex_wake_unaligned :
    FutexTrace silent (twoThreads fun _ => 0) [] (twoThreads fun _ => 0) ∧
      (((twoThreads fun _ => 0).futexCall silent 0 1 1 7 0).result 0).toNat ≠
        min 7 ((fifo []).waiting 1).length :=
  ⟨.refl, by decide⟩

/-! ## With deadlines -/

/-- The sum of what the wakes of `uaddr` have returned. -/
def returned (uaddr : U32) : List FutexEvent → Nat
  | [] => 0
  | .woke _ u _ result :: es => (if u = uaddr then result.toNat else 0) + returned uaddr es
  | _ :: es => returned uaddr es

/-- How many waits at `uaddr` have returned `0`. -/
def zeros (uaddr : U32) (es : List FutexEvent) : Nat :=
  es.countP fun
    | .tried _ u _ result => u = uaddr ∧ result = some 0
    | _ => false

/-- A wait that a wake has counted returns `0`. -/
def Kept (q : WaitQueue U32 Nat) : FutexEvent → Prop
  | .tried thread uaddr _ (some result) => thread ∈ q.woken uaddr → result = 0
  | _ => True

/-- An attempt to resume a thread that a wake has counted is made before its deadline. -/
def InTime (q : WaitQueue U32 Nat) : FutexEvent → Prop
  | .tried thread uaddr late _ => thread ∈ q.woken uaddr → late = false
  | _ => True

theorem Right.kept_iff {e : FutexEvent} (h : Right q e) : Kept q e ↔ InTime q e := by
  cases e with
  | waited | woke => exact Iff.rfl
  | tried thread uaddr late result =>
    have hresult : result = if late then some etimedout
      else if thread ∈ q.woken uaddr then some 0 else none := h
    by_cases hwoken : thread ∈ q.woken uaddr
    · cases late with
      | true => simp [hresult, Kept, InTime, hwoken, etimedout]
      | false => simp [hresult, Kept, InTime, hwoken]
    refine iff_of_true ?_ fun hmem => absurd hmem hwoken
    cases result with
    | none => trivial
    | some v => exact fun hmem => absurd hmem hwoken

theorem along_congr {R P Q : WaitQueue U32 Nat → FutexEvent → Prop}
    (hPQ : ∀ {q e}, R q e → (P q e ↔ Q q e)) (hR : Along R q es) : Along P q es ↔ Along Q q es := by
  induction es generalizing q with
  | nil => exact Iff.rfl
  | cons e es ih => exact and_congr (hPQ hR.1) (ih hR.2)

/-! ### The events and the ledger -/

section Ledger
variable {e : FutexEvent}

theorem counted_queued (q : WaitQueue U32 Nat) (u : U32) (e : FutexEvent) (es : List FutexEvent) :
    q.counted u ((e :: es).filterMap queued) =
      q.counted u e.queued.toList +
        (q.run e.queued.toList).counted u (es.filterMap queued) := by
  rw [← q.counted_append, List.filterMap_cons]
  cases e.queued with
  | none => rfl
  | some e' => rfl

theorem lost_queued (q : WaitQueue U32 Nat) (u : U32) (e : FutexEvent) (es : List FutexEvent) :
    q.lost u ((e :: es).filterMap queued) =
      q.lost u e.queued.toList +
        (q.run e.queued.toList).lost u (es.filterMap queued) := by
  rw [← q.lost_append, List.filterMap_cons]
  cases e.queued with
  | none => rfl
  | some e' => rfl

theorem returned_eq (h : Along Right q es) (u : U32) : returned u es = q.counted u (es.filterMap queued) := by
  induction es generalizing q with
  | nil => rfl
  | cons e es ih =>
    rw [counted_queued, ← ih h.2]
    cases e with
    | waited thread uaddr space deadline => simp [returned, queued, counted]
    | woke thread uaddr limit result =>
      have hresult : result.toNat = min limit (q.waiting uaddr).length := h.1
      by_cases hu : uaddr = u
      · subst hu
        simp [returned, queued, counted, hresult]
      · simp [returned, queued, counted, hu]
    | tried thread uaddr late result =>
      cases result <;> simp [returned, queued, counted]

theorem zeros_eq (u : U32) (es : List FutexEvent) : zeros u es = met u (es.filterMap queued) := by
  rw [zeros, met, List.countP_filterMap]
  refine List.countP_congr fun e _ => ?_
  cases e with
  | waited | woke => simp [queued]
  | tried thread uaddr late result => cases result <;> simp [queued]

theorem honest_queued (h : Along Right q es) : q.Honest (es.filterMap queued) := by
  induction es generalizing q with
  | nil => trivial
  | cons e es ih =>
    have hrest := ih h.2
    have hright := h.1
    cases e with
    | waited | woke => exact ⟨by simp, hrest⟩
    | tried thread uaddr late result =>
      cases result with
      | none => exact hrest
      | some v =>
        refine ⟨?_, hrest⟩
        rintro k t heq
        simp at heq
        obtain ⟨rfl, rfl, rfl⟩ := heq
        -- who says `0` was not late, and has been woken
        have hresult : some (0 : U32) = if late then some etimedout
          else if thread ∈ q.woken uaddr then some 0 else none := hright
        by_contra hnot
        rw [if_neg hnot] at hresult
        cases late <;> simp [etimedout] at hresult

theorem along_kept_iff (q : WaitQueue U32 Nat) (es : List FutexEvent) :
    Along Kept q es ↔ ∀ u, q.lost u (es.filterMap queued) = 0 := by
  induction es generalizing q with
  | nil => exact iff_of_true trivial fun _ => rfl
  | cons e es ih =>
    have hstep : Kept q e ↔ ∀ u, q.lost u e.queued.toList = 0 := by
      cases e with
      | waited | woke => simp [Kept, queued, lost]
      | tried thread uaddr late result =>
        cases result with
        | none => simp [Kept, queued, lost]
        | some v =>
          by_cases hv : v = 0
          · subst hv
            simp [Kept, queued, lost]
          have hfalse : decide (v = 0) = false := decide_eq_false hv
          have hkept : Kept q (.tried thread uaddr late (some v)) ↔ thread ∉ q.woken uaddr :=
            imp_congr_right fun _ => iff_false_intro hv
          simp only [hkept, queued, Option.toList_some, hfalse, lost]
          simp
    simp only [Along, hstep, ih, lost_queued, Nat.add_eq_zero_iff, forall_and]

end Ledger

/-- Everyone that a wake of `u` has counted has returned `0`, has returned something else
although counted, or still waits. -/
theorem futex_ledger (h₀ : NoWaiters w₀) (h : FutexTrace host w₀ es w) (u : U32) :
    returned u es = zeros u es +
      lost .empty u (es.filterMap queued) + ((fifo es).woken u).length := by
  have hright := h.right h₀
  have hledger := ledger .empty u _ (honest_queued hright)
  rw [returned_eq hright, zeros_eq]
  exact hledger

theorem woken_eq_nil (h₀ : NoWaiters w₀) (h : FutexTrace host w₀ es w)
    (hidle : ∀ j, w.records j = none) (u : U32) : (fifo es).woken u = [] := by
  refine List.eq_nil_iff_forall_not_mem.mpr fun j hj => ?_
  exact not_waitsAt_of_none (hidle j) true (((h.sim h₀).2.woken u j).mp hj)

/-- No wake is lost exactly if every attempt to resume a thread that a wake has counted is made
before the deadline of that thread. -/
theorem futex_kept_iff (host : Host) (w₀ w : World) (es : List FutexEvent) (h₀ : NoWaiters w₀)
    (h : FutexTrace host w₀ es w) :
    (Along Kept .empty es ↔ Along InTime .empty es) ∧
      ((∀ j, w.records j = none) →
        ((∀ u, zeros u es = returned u es) ↔ Along InTime .empty es)) := by
  have hkept := along_congr Right.kept_iff (h.right h₀)
  refine ⟨hkept, fun hidle => ?_⟩
  rw [← hkept, along_kept_iff]
  refine forall_congr' fun u => ?_
  have hledger := futex_ledger h₀ h u
  rw [woken_eq_nil h₀ h hidle u, List.length_nil] at hledger
  omega

/-- The woken thread is resumed, and returns `0`. -/
theorem futex_kept_iff_wokenThread :
    FutexTrace silent (twoThreads fun _ => 0)
        [.waited 1 4 0 none, .woke 0 4 7 1, .tried 1 4 false (some 0)]
        (wokenThread.resumeFutex silent 1).2 ∧
      Along Kept .empty [.waited 1 4 0 none, .woke 0 4 7 1, .tried 1 4 false (some 0)] := by
  have h := wokenThread_trace.resume (show 1 < wokenThread.procs.next by decide)
  refine ⟨h, (futex_kept_iff _ _ _ _ (twoThreads_noWaiters fun _ => 0) h).1.mpr ?_⟩
  exact ⟨trivial, trivial, fun _ => rfl, trivial⟩

/-- A clock that moves by one second between two calls to the host. -/
def clock : Host := { silent with now := fun tick => tick * 1000000000 }

/-- A memory with the time `1 s` at `8`. -/
def oneSecond (a : U32) : U8 := if a = 8 then 1 else 0

/-- The second thread waits for one second at most; the first wakes it in time, but the second
has passed when it is resumed. -/
def lostWake : World :=
  let w := (twoThreads oneSecond).futexCall clock 1 4 0 0 8
  ((w.futexCall clock 0 4 1 1 0).resumeFutex clock 1).2

def lostWakeEvents : List FutexEvent :=
  [.waited 1 4 0 (some 1000000000), .woke 0 4 1 1, .tried 1 4 true (some etimedout)]

theorem futex_wake_lost :
    FutexTrace clock (twoThreads oneSecond) lostWakeEvents lostWake ∧
      (∀ j, lostWake.records j = none) ∧ ¬ Along Kept .empty lostWakeEvents ∧
      zeros 4 lostWakeEvents = 0 ∧ returned 4 lostWakeEvents = 1 := by
  have hstart : FutexTrace clock (twoThreads oneSecond) [] (twoThreads oneSecond) := .refl
  have hwait := hstart.call 4 0 0 8 (show 1 < (twoThreads oneSecond).procs.next by decide)
  have hwake := hwait.call 4 1 1 0 (show 0 < (twoThreads oneSecond).procs.next by decide)
  have htried := hwake.resume (show 1 < (twoThreads oneSecond).procs.next by decide)
  refine ⟨?_, ?_, ?_, rfl, rfl⟩
  · convert htried using 1
    · decide +kernel
    · rfl
  · intro j
    match j with
    | 0 => rfl
    | 1 => rfl
    | j + 2 => exact if_neg (show ¬ j + 2 < 2 by omega)
  · rintro ⟨_, _, hkept, _⟩
    exact absurd (hkept (by decide)) (by decide)

end World

end IshGo.Guest
