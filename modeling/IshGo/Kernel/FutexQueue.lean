/-
# `IshGo.Kernel.FutexQueue` — the table of waiters is a wait queue

The kernels of all tasks share one table of waiters, and each keeps a record of what its task
waits for.  Table and records together are a `WaitQueue` (`FutexSim`):

    waiters of uaddr                      the channels of those that wait at uaddr, in order
    a record whose channel is open        waits
    a record whose channel is closed      has been woken
-/
import IshGo.Kernel.Signals
import IshGo.Lib.WaitQueue

namespace IshGo.Kernel

open I386 Lib WaitQueue List

variable {b : FutexBlock} {l : List Nat} {s : KState} {α : Type}

section Table
variable (F : Futexes) (B : Nat → Option FutexBlock)

/-- By the records `B`, the thread waits at `uaddr`, on a channel that is closed or not. -/
def WaitsAt (closed : Bool) (uaddr : U32) (j : Nat) : Prop :=
  ∃ b, B j = some b ∧ b.uaddr = uaddr ∧ F.closed b.waiter = closed

def channel (j : Nat) : Nat := (B j).elim 0 FutexBlock.waiter

structure FutexSim (q : WaitQueue U32 Nat) : Prop where
  queue : ∀ u, F.waiters u = (q.waiting u).map (channel B)
  waiting : ∀ u j, j ∈ q.waiting u ↔ WaitsAt F B false u j
  woken : ∀ u j, j ∈ q.woken u ↔ WaitsAt F B true u j
  once : ∀ u, (q.waiting u).Nodup ∧ (q.woken u).Nodup
  channels : ∀ j b, B j = some b → b.waiter < F.next
  distinct : ∀ i j b c, B i = some b → B j = some c → b.waiter = c.waiter → i = j

end Table

section Sim
variable {F F' : Futexes} {B : Nat → Option FutexBlock} {q : WaitQueue U32 Nat} {i j : Nat} {u : U32}

theorem channel_of_record (h : B j = some b) : channel B j = b.waiter := by
  rw [channel, h]
  rfl

theorem not_waitsAt_of_none (h : B j = none) (closed : Bool) : ¬ WaitsAt F B closed u j := by
  rintro ⟨b, hb, _⟩
  rw [h] at hb
  cases hb

theorem FutexSim.not_mem (h : FutexSim F B q) (hnone : B i = none) (u : U32) :
    i ∉ q.waiting u ∧ i ∉ q.woken u := by
  rw [h.waiting, h.woken]
  exact ⟨not_waitsAt_of_none hnone false, not_waitsAt_of_none hnone true⟩

theorem FutexSim.owner (h : FutexSim F B q) (hb : B i = some b)
    (hl : l ⊆ q.waiting u) : b.waiter ∈ l.map (channel B) ↔ i ∈ l := by
  constructor
  · intro hmem
    obtain ⟨j, hj, heq⟩ := mem_map.mp hmem
    obtain ⟨c, hc, _⟩ := (h.waiting u j).mp (hl hj)
    rw [h.distinct i j b c hb hc (heq.symm.trans (channel_of_record hc))]
    exact hj
  · intro hmem
    exact mem_map.mpr ⟨i, hmem, channel_of_record hb⟩

theorem FutexSim.next_not_mem (h : FutexSim F B q) (u : U32) : F.next ∉ F.waiters u := by
  rw [h.queue]
  intro hmem
  obtain ⟨j, hj, heq⟩ := mem_map.mp hmem
  obtain ⟨b, hb, _⟩ := (h.waiting u j).mp hj
  have hlt := h.channels j b hb
  rw [channel_of_record hb] at heq
  omega

theorem mem_drop_iff {l : List α} (h : l.Nodup) (n : Nat) {a : α} : a ∈ l.drop n ↔ a ∈ l ∧ a ∉ l.take n := by
  constructor
  · intro ha
    exact ⟨mem_of_mem_drop ha, fun hfront => disjoint_take_drop h (Nat.le_refl n) hfront ha⟩
  · rintro ⟨ha, hnot⟩
    rw [← take_append_drop n l, mem_append] at ha
    exact ha.resolve_left hnot

theorem map_erase_of_owner {β : Type} [DecidableEq α] [DecidableEq β] {f : α → β} {a : α}
    {l : List α} (h : ∀ x ∈ l, f x = f a ↔ x = a) : (l.map f).erase (f a) = (l.erase a).map f := by
  induction l with
  | nil => rfl
  | cons x l ih =>
    have hx := h x mem_cons_self
    have hrest := ih fun y hy => h y (mem_cons_of_mem x hy)
    rw [map_cons, erase_cons, erase_cons, hrest]
    by_cases heq : x = a
    · simp [heq]
    · simp [heq, hx]

theorem FutexSim.empty (hwaiters : ∀ u, F.waiters u = []) (hB : ∀ j, B j = none) : FutexSim F B empty := by
  refine ⟨hwaiters, ?_, ?_, fun _ => ⟨nodup_nil, nodup_nil⟩, ?_, ?_⟩
  · intro u j
    exact iff_of_false not_mem_nil (not_waitsAt_of_none (hB j) false)
  · intro u j
    exact iff_of_false not_mem_nil (not_waitsAt_of_none (hB j) true)
  · intro j b hb
    rw [hB j] at hb
    cases hb
  · intro i j b c hb
    rw [hB i] at hb
    cases hb

theorem FutexSim.apart (h : FutexSim F B q) (hwaiters : F'.waiters = F.waiters)
    (hclosed : ∀ c < F.next, F'.closed c = F.closed c) (hnext : F.next ≤ F'.next) : FutexSim F' B q := by
  have hwaits : ∀ closed u j, WaitsAt F' B closed u j ↔ WaitsAt F B closed u j := by
    intro closed u j
    refine exists_congr fun b => and_congr_right fun hb => and_congr_right fun _ => ?_
    rw [hclosed b.waiter (h.channels j b hb)]
  refine ⟨?_, ?_, ?_, h.once, ?_, h.distinct⟩
  · rw [hwaiters]
    exact h.queue
  · intro u j
    rw [hwaits, h.waiting]
  · intro u j
    rw [hwaits, h.woken]
  · intro j b hb
    exact (h.channels j b hb).trans_le hnext

/-! ## A thread joins -/

/-- The records after thread `i` has joined the queue at `u`. -/
def joined (F : Futexes) (B : Nat → Option FutexBlock) (i : Nat) (u : U32) (deadline : Option Nat) :
    Nat → Option FutexBlock :=
  Function.update B i (some ⟨u, F.next, deadline⟩)

section Join
variable (deadline : Option Nat)

theorem joined_self : joined F B i u deadline i = some ⟨u, F.next, deadline⟩ :=
  Function.update_self ..

theorem joined_of_ne (h : j ≠ i) : joined F B i u deadline j = B j := Function.update_of_ne h ..

/-- The new one waits; the others are where they were. -/
theorem FutexSim.waitsAt_joined (h : FutexSim F B q) (closed : Bool) (u' : U32) (j : Nat) :
    WaitsAt (F.add u).2 (joined F B i u deadline) closed u' j ↔
      if j = i then closed = false ∧ u' = u else WaitsAt F B closed u' j := by
  unfold WaitsAt
  by_cases hj : j = i
  · subst hj
    rw [joined_self, if_pos rfl]
    simp [Futexes.add, eq_comm, and_comm]
  rw [joined_of_ne deadline hj, if_neg hj]
  refine exists_congr fun b => and_congr_right fun hb => and_congr_right fun _ => ?_
  have hold : (F.add u).2.closed b.waiter = F.closed b.waiter :=
    Function.update_of_ne (Nat.ne_of_lt (h.channels j b hb)) ..
  rw [hold]

theorem FutexSim.queue_joined (h : FutexSim F B q) (hnone : B i = none) (u' : U32) :
    (F.add u).2.waiters u' =
      ((q.apply (.wait u i)).waiting u').map (channel (joined F B i u deadline)) := by
  have hmap : (q.waiting u').map (channel (joined F B i u deadline)) = F.waiters u' := by
    rw [h.queue]
    refine map_congr_left fun j hj => ?_
    have hne : j ≠ i := fun hji => (h.not_mem hnone u').1 (hji ▸ hj)
    rw [channel, channel, joined_of_ne deadline hne]
  rw [waiting_wait]
  by_cases hu : u' = u
  · subst hu
    rw [if_pos rfl, map_append, hmap, map_singleton, channel_of_record (joined_self deadline)]
    exact Function.update_self ..
  · rw [if_neg hu, hmap]
    exact Function.update_of_ne hu ..

theorem FutexSim.distinct_joined (h : FutexSim F B q) {k : Nat} {c : FutexBlock}
    (hb : joined F B i u deadline k = some b) (hc : joined F B i u deadline j = some c)
    (heq : b.waiter = c.waiter) : k = j := by
  by_cases hk : k = i <;> by_cases hj : j = i
  · rw [hk, hj]
  · subst hk
    rw [joined_self] at hb
    rw [joined_of_ne deadline hj] at hc
    cases hb
    exact absurd heq (Nat.ne_of_gt (h.channels j c hc))
  · subst hj
    rw [joined_self] at hc
    rw [joined_of_ne deadline hk] at hb
    cases hc
    exact absurd heq (Nat.ne_of_lt (h.channels k b hb))
  · rw [joined_of_ne deadline hk] at hb
    rw [joined_of_ne deadline hj] at hc
    exact h.distinct k j b c hb hc heq

theorem FutexSim.wait (h : FutexSim F B q) (hnone : B i = none) (u : U32) :
    FutexSim (F.add u).2 (joined F B i u deadline) (q.apply (.wait u i)) := by
  refine ⟨h.queue_joined deadline hnone, ?_, ?_, ?_, ?_, fun k j b c => h.distinct_joined deadline⟩
  · intro u' j
    have hnot := (h.not_mem hnone u').1
    rw [waiting_wait, h.waitsAt_joined]
    by_cases hj : j = i
    · subst hj
      by_cases hu : u' = u
      · simp [hu]
      · simp [hu, hnot]
    rw [if_neg hj, ← h.waiting]
    by_cases hu : u' = u
    · simp [hu, hj]
    · simp [hu]
  · intro u' j
    have hnot := (h.not_mem hnone u').2
    rw [woken_wait, h.waitsAt_joined]
    by_cases hj : j = i
    · simp [hj, hnot]
    · rw [if_neg hj, h.woken]
  · intro u'
    rw [waiting_wait, woken_wait]
    refine ⟨?_, (h.once u').2⟩
    split
    · have hnot := (h.not_mem hnone u').1
      simp [nodup_append, (h.once u').1]
      exact fun a ha hai => hnot (hai ▸ ha)
    · exact (h.once u').1
  intro j b hb
  by_cases hj : j = i
  · subst hj
    rw [joined_self] at hb
    cases hb
    exact Nat.lt_succ_self _
  · rw [joined_of_ne deadline hj] at hb
    exact Nat.lt_succ_of_lt (h.channels j b hb)

end Join

/-! ## The first ones are woken -/

section Wake
variable (u : U32) (n : Nat)

/-- The table after a call of `FUTEX_WAKE`. -/
def afterWake (F : Futexes) : Futexes := F.wake u (min n (F.waiters u).length)

section
variable (h : FutexSim F B q)
include h

theorem FutexSim.closed_woken (hb : B j = some b) :
    (afterWake u n F).closed b.waiter = (F.closed b.waiter || j ∈ (q.waiting u).take n) := by
  have htake : (F.waiters u).take (min n (F.waiters u).length) =
      ((q.waiting u).take n).map (channel B) := by
    rw [take_eq_take_min.symm, h.queue, map_take]
  have howner := h.owner hb (take_subset n (q.waiting u))
  simp only [afterWake, Futexes.wake, htake, howner]

theorem FutexSim.first {u : U32} {n : Nat} (hj : j ∈ (q.waiting u).take n)
    (hb : B j = some b) : b.uaddr = u ∧ F.closed b.waiter = false := by
  obtain ⟨c, hc, hcaddr, hopen⟩ := (h.waiting u j).mp (mem_of_mem_take hj)
  rw [hb] at hc
  cases hc
  exact ⟨hcaddr, hopen⟩

theorem FutexSim.waitsAt_woken_false (u' : U32) (j : Nat) :
    WaitsAt (afterWake u n F) B false u' j ↔ j ∈ q.waiting u' ∧ j ∉ (q.waiting u).take n := by
  rw [h.waiting]
  constructor
  · rintro ⟨b, hb, huaddr, hc⟩
    rw [h.closed_woken u n hb, Bool.or_eq_false_iff, decide_eq_false_iff_not] at hc
    exact ⟨⟨b, hb, huaddr, hc.1⟩, hc.2⟩
  · rintro ⟨⟨b, hb, huaddr, hc⟩, hnot⟩
    refine ⟨b, hb, huaddr, ?_⟩
    rw [h.closed_woken u n hb, hc, Bool.false_or, decide_eq_false hnot]

theorem FutexSim.waitsAt_woken_true (u' : U32) (j : Nat) :
    WaitsAt (afterWake u n F) B true u' j ↔ j ∈ q.woken u' ∨ u' = u ∧ j ∈ (q.waiting u).take n := by
  rw [h.woken]
  constructor
  · rintro ⟨b, hb, huaddr, hc⟩
    rw [h.closed_woken u n hb, Bool.or_eq_true, decide_eq_true_eq] at hc
    rcases hc with hc | hc
    · exact Or.inl ⟨b, hb, huaddr, hc⟩
    · exact Or.inr ⟨huaddr.symm.trans (h.first hc hb).1, hc⟩
  rintro (⟨b, hb, huaddr, hc⟩ | ⟨rfl, hj⟩)
  · refine ⟨b, hb, huaddr, ?_⟩
    rw [h.closed_woken u n hb, hc, Bool.true_or]
  · obtain ⟨b, hb, huaddr, _⟩ := (h.waiting u' j).mp (mem_of_mem_take hj)
    refine ⟨b, hb, huaddr, ?_⟩
    rw [h.closed_woken u' n hb, decide_eq_true hj, Bool.or_true]

theorem FutexSim.queue_woken (u' : U32) :
    (afterWake u n F).waiters u' = ((q.apply (.wake u n)).waiting u').map (channel B) := by
  have hdrop : (F.waiters u).drop (min n (F.waiters u).length) =
      ((q.waiting u).drop n).map (channel B) := by
    rw [drop_eq_drop_min.symm, h.queue, map_drop]
  rw [waiting_wake]
  by_cases hu : u' = u
  · subst hu
    rw [if_pos rfl, ← hdrop]
    exact Function.update_self ..
  · rw [if_neg hu, ← h.queue]
    exact Function.update_of_ne hu ..

theorem FutexSim.once_woken (u' : U32) :
    ((q.apply (.wake u n)).waiting u').Nodup ∧ ((q.apply (.wake u n)).woken u').Nodup := by
  rw [waiting_wake, woken_wake]
  by_cases hu : u' = u
  · subst hu
    rw [if_pos rfl, if_pos rfl]
    refine ⟨(drop_sublist n _).nodup (h.once u').1, nodup_append.mpr
      ⟨(h.once u').2, (take_sublist n _).nodup (h.once u').1, ?_⟩⟩
    intro a ha b hb hab
    subst hab
    obtain ⟨c, hc, _, hshut⟩ := (h.woken u' a).mp ha
    rw [(h.first hb hc).2] at hshut
    cases hshut
  · rw [if_neg hu, if_neg hu]
    exact h.once u'

theorem FutexSim.wake : FutexSim (afterWake u n F) B (q.apply (.wake u n)) := by
  refine ⟨h.queue_woken u n, ?_, ?_, h.once_woken u n, h.channels, h.distinct⟩
  · intro u' j
    rw [h.waitsAt_woken_false, waiting_wake]
    by_cases hu : u' = u
    · subst hu
      rw [if_pos rfl]
      exact mem_drop_iff (h.once u').1 n
    rw [if_neg hu]
    refine (and_iff_left_of_imp ?_).symm
    intro hj hfront
    obtain ⟨b, hb, huaddr, _⟩ := (h.waiting u' j).mp hj
    exact hu (huaddr.symm.trans (h.first hfront hb).1)
  · intro u' j
    rw [h.waitsAt_woken_true, woken_wake]
    by_cases hu : u' = u
    · simp [hu]
    · simp [hu]

end

end Wake

/-! ## A thread leaves, woken or not -/

theorem waitsAt_left (b : FutexBlock) (i : Nat) (closed : Bool) (u : U32) (j : Nat) :
    WaitsAt (F.remove b.uaddr b.waiter) (Function.update B i none) closed u j ↔
      j ≠ i ∧ WaitsAt F B closed u j := by
  by_cases hj : j = i
  · subst hj
    simp [WaitsAt]
  · simp only [WaitsAt, Function.update_of_ne hj, Futexes.remove, ne_eq, hj, not_false_eq_true, true_and]

/-- A thread is only where its record says. -/
theorem waitsAt_elsewhere (hb : B i = some b) (hu : u ≠ b.uaddr) (closed : Bool) :
    ¬ WaitsAt F B closed u i := by
  rintro ⟨c, hc, hcaddr, _⟩
  rw [hb] at hc
  cases hc
  exact hu hcaddr.symm

theorem map_channel_left (hl : i ∉ l) : l.map (channel (Function.update B i none)) = l.map (channel B) := by
  refine map_congr_left fun j hj => ?_
  rw [channel, channel, Function.update_of_ne]
  rintro rfl
  exact hl hj

theorem FutexSim.queue_left (h : FutexSim F B q) (hb : B i = some b) (ok : Bool) (u : U32) :
    (F.remove b.uaddr b.waiter).waiters u =
      ((q.apply (.leave b.uaddr i ok)).waiting u).map (channel (Function.update B i none)) := by
  rw [waiting_leave]
  by_cases hu : u = b.uaddr
  · subst hu
    rw [if_pos rfl, map_channel_left fun hmem => ((h.once _).1.mem_erase_iff.mp hmem).1 rfl,
      ← map_erase_of_owner]
    · show Function.update F.waiters b.uaddr _ b.uaddr = _
      rw [Function.update_self, h.queue, channel_of_record hb]
    intro j hj
    rw [channel_of_record hb]
    obtain ⟨c, hc, _⟩ := (h.waiting _ j).mp hj
    constructor
    · intro heq
      exact h.distinct j i c b hc hb ((channel_of_record hc).symm.trans heq)
    · rintro rfl
      exact channel_of_record hb
  · rw [if_neg hu, map_channel_left fun hmem =>
      waitsAt_elsewhere hb hu false ((h.waiting u i).mp hmem), ← h.queue]
    exact Function.update_of_ne hu ..

theorem mem_left_iff (hl : l.Nodup) (helse : u ≠ b.uaddr → i ∉ l) :
    j ∈ (if u = b.uaddr then l.erase i else l) ↔ j ≠ i ∧ j ∈ l := by
  by_cases hu : u = b.uaddr
  · rw [if_pos hu, hl.mem_erase_iff]
  rw [if_neg hu]
  refine (and_iff_right_of_imp ?_).symm
  rintro hj rfl
  exact helse hu hj

theorem FutexSim.leave (h : FutexSim F B q) (hb : B i = some b) (ok : Bool) :
    FutexSim (F.remove b.uaddr b.waiter) (Function.update B i none)
      (q.apply (.leave b.uaddr i ok)) := by
  have hrecord : ∀ j c, Function.update B i none j = some c → B j = some c := by
    intro j c hc
    by_cases hj : j = i
    · subst hj
      rw [Function.update_self] at hc
      cases hc
    · rwa [Function.update_of_ne hj] at hc
  refine ⟨h.queue_left hb ok, ?_, ?_, ?_, fun j c hc => h.channels j c (hrecord j c hc), ?_⟩
  · intro u j
    rw [waitsAt_left, ← h.waiting, waiting_leave]
    exact mem_left_iff (h.once u).1 fun hu hmem =>
      waitsAt_elsewhere hb hu false ((h.waiting u i).mp hmem)
  · intro u j
    rw [waitsAt_left, ← h.woken, woken_leave]
    exact mem_left_iff (h.once u).2 fun hu hmem =>
      waitsAt_elsewhere hb hu true ((h.woken u i).mp hmem)
  · intro u
    rw [waiting_leave, woken_leave]
    split
    · exact ⟨(h.once u).1.erase i, (h.once u).2.erase i⟩
    · exact h.once u
  · intro k j c d hc hd
    exact h.distinct k j c d (hrecord k c hc) (hrecord j d hd)

end Sim

/-! ## The calls -/

/-- What `FUTEX_WAIT` can do under a scheduler: fail; fail because the task waits already, which
uses up a channel; or join the queue. -/
theorem futexWait_cases (haware : s.kern.schedulerAware = true) (host : Host)
    (uaddr value timeoutAddr : U32) :
    (∃ v, s.futexWait host uaddr value timeoutAddr = s.ret v) ∨
      (s.kern.blockedFutex ≠ none ∧
        s.futexWait host uaddr value timeoutAddr =
          { s with
            futex := (s.futex.add uaddr).2.remove uaddr s.futex.next
            objs := s.objs.nextTick }.ret eagain) ∨
      ∃ deadline, s.kern.blockedFutex = none ∧ s.mem.read32 uaddr = .ok value ∧
        (timeoutAddr = 0 → deadline = none) ∧
        s.futexWait host uaddr value timeoutAddr =
          { s with
            futex := (s.futex.add uaddr).2
            objs := s.objs.nextTick
            kern := { s.kern with blockedFutex := some ⟨uaddr, s.futex.next, deadline⟩ } } := by
  unfold KState.futexWait
  cases hread : s.mem.read32 uaddr with
  | error e => exact Or.inl ⟨efault, rfl⟩
  | ok current =>
    dsimp only
    split
    · exact Or.inl ⟨eagain, rfl⟩
    rename_i hsame
    obtain rfl := not_not.mp hsame
    cases hdeadline : s.futexDeadline host timeoutAddr with
    | error e => exact Or.inl ⟨e, rfl⟩
    | ok deadline =>
      have hnone : timeoutAddr = 0 → deadline = none := by
        intro hzero
        rw [KState.futexDeadline, if_pos hzero] at hdeadline
        cases hdeadline
        rfl
      dsimp only
      rw [if_neg (by rw [haware]; exact Bool.noConfusion)]
      split
      · rename_i hblocked
        exact Or.inr (Or.inl ⟨hblocked, rfl⟩)
      · rename_i hblocked
        exact Or.inr (Or.inr ⟨deadline, not_not.mp hblocked, rfl, hnone, rfl⟩)

theorem tryResumeBlockedFutex_some (h : s.kern.blockedFutex = some b) (host : Host) :
    s.tryResumeBlockedFutex host =
      let late := b.deadline.any (· ≤ host.now s.objs.tick)
      let s := { s with objs := s.objs.nextTick }
      if late then (true, s.futexDone b etimedout)
      else if s.futex.closed b.waiter then (true, s.futexDone b 0)
      else (false, s) := by
  unfold KState.tryResumeBlockedFutex
  rw [h]

end IshGo.Kernel
