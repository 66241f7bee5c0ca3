/-
# `IshGo.Guest.Reaping` — PIDs are given out once and returned once

`Book` is the invariant of a trace: the PIDs are `2, 3, 4, …` in the order in which they were
taken, a task is under the PID of its process and has the parent that took the PID, and the
tasks marked as reaped are those whose PID some `wait4` has returned.
-/
import IshGo.Guest.Exit
import IshGo.Guest.Trace
import IshGo.Kernel.MapAtomic

namespace IshGo.Guest

open I386 Kernel Lib List

variable {k : Nat} {t : Task} {parentPID pid : U32}
variable {i : Nat} {requested : U32}
variable {w' : World}
variable {es : List Event} {w : World}

/-- A result of `wait4` that is a PID. -/
def IsPID (v : U32) : Prop := v ≠ 0 ∧ ¬ IsErrno v

instance (v : U32) : Decidable (IsPID v) := inferInstanceAs (Decidable (_ ∧ _))

def Event.issuedPID : Event → Option U32
  | issued _ pid => some pid
  | waited .. => none

def Event.returnedPID : Event → Option U32
  | issued .. => none
  | waited _ _ result => if IsPID result then some result else none

def issuedPIDs (es : List Event) : List U32 := es.filterMap Event.issuedPID

/-- The PIDs returned by `wait4`, in order. -/
def returnedPIDs (es : List Event) : List U32 := es.filterMap Event.returnedPID

namespace World

/-! ## The book -/

structure Book (es : List Event) (w : World) : Prop where
  next : w.nextPID.toNat = (issuedPIDs es).length + 2
  issued : issuedPIDs es = (range (issuedPIDs es).length).map fun k => BitVec.ofNat 32 (k + 2)
  listed : ∀ pid t, w.tasks pid = some t → pid ∈ w.order
  named : ∀ pid t, w.tasks pid = some t → (w.proc t.process).pid = pid ∧ t.process < w.procs.next
  parent : ∀ pid t, w.tasks pid = some t →
    pid = 1 ∧ (w.proc t.process).parentPID = 0 ∨
      Event.issued (w.proc t.process).parentPID pid ∈ es
  positive : ∀ j, (w.proc j).pid ≠ 0
  reaped : ∀ pid, pid ∈ returnedPIDs es ↔ ∃ t, w.tasks pid = some t ∧ t.reaped = true
  once : (returnedPIDs es).Nodup
  toParent : ∀ caller requested pid, Event.waited caller requested pid ∈ es → IsPID pid →
    Event.issued caller pid ∈ es

theorem update_eq_some_iff {tasks : U32 → Option Task} {new : U32} {s : Task} :
    Function.update tasks new (some s) pid = some t ↔
      pid = new ∧ t = s ∨ pid ≠ new ∧ tasks pid = some t := by
  by_cases hpid : pid = new
  · subst hpid
    simp [eq_comm]
  · simp [hpid]

theorem mem_issuedPIDs : pid ∈ issuedPIDs es ↔ ∃ parent, Event.issued parent pid ∈ es := by
  unfold issuedPIDs
  rw [mem_filterMap]
  constructor
  · rintro ⟨e, he, hpid⟩
    cases e with
    | issued parent pid' =>
      cases hpid
      exact ⟨parent, he⟩
    | waited caller requested result => cases hpid
  · rintro ⟨parent, he⟩
    exact ⟨_, he, rfl⟩

namespace Book

section Few
variable (h : Book es w) (hfew : (issuedPIDs es).length < 2 ^ 31)
include h hfew

theorem issued_range (hpid : pid ∈ issuedPIDs es) : 2 ≤ pid.toNat ∧ pid.toNat < (issuedPIDs es).length + 2 := by
  rw [h.issued] at hpid
  obtain ⟨k, hk, rfl⟩ := mem_map.mp hpid
  have hlt := mem_range.mp hk
  rw [toNat_ofNat_of_lt (by omega)]
  omega

theorem task_range (ht : w.tasks pid = some t) : 1 ≤ pid.toNat ∧ pid.toNat < (issuedPIDs es).length + 2 := by
  rcases h.parent pid t ht with ⟨rfl, _⟩ | hissued
  · refine ⟨by decide, ?_⟩
    show 1 < _
    omega
  · have := h.issued_range hfew (mem_issuedPIDs.mpr ⟨_, hissued⟩)
    omega

theorem scheduled : w.Scheduled where
  listed := h.listed
  named pid t ht := by
    have := h.task_range hfew ht
    exact ⟨(h.named pid t ht).1, by omega, by omega⟩

theorem fresh : w.tasks w.nextPID = none := by
  cases ht : w.tasks w.nextPID with
  | none => rfl
  | some t =>
    have := (h.task_range hfew ht).2
    rw [h.next] at this
    omega

theorem issued_nodup : (issuedPIDs es).Nodup := by
  rw [h.issued]
  refine List.Nodup.map_on ?_ nodup_range
  intro k hk l hl heq
  have hk := mem_range.mp hk
  have hl := mem_range.mp hl
  have := congrArg BitVec.toNat heq
  rw [toNat_ofNat_of_lt (by omega), toNat_ofNat_of_lt (by omega)] at this
  omega

end Few

theorem quiet (h : Book es w) (hq : Quiet w w') : Book es w' where
  next := by rw [hq.nextPID]; exact h.next
  issued := h.issued
  listed pid t ht := by
    rw [hq.tasks] at ht
    rw [hq.order]
    exact h.listed pid t ht
  named pid t ht := by
    rw [hq.tasks] at ht
    rw [hq.pid, hq.next]
    exact h.named pid t ht
  parent pid t ht := by
    rw [hq.tasks] at ht
    rw [hq.parentPID]
    exact h.parent pid t ht
  positive j := by rw [hq.pid]; exact h.positive j
  reaped pid := by rw [hq.tasks]; exact h.reaped pid
  once := h.once
  toParent := h.toParent

theorem start (image : Image) (tty : Option Nat) (objs : Objects) : Book [] (World.start image tty objs) := by
  have htask : ∀ pid t, (World.start image tty objs).tasks pid = some t → pid = 1 ∧ t = ⟨0, false⟩ := by
    intro pid t ht
    unfold World.start at ht
    dsimp only at ht
    split at ht
    · cases ht
      exact ⟨‹_›, rfl⟩
    · cases ht
  refine ⟨rfl, rfl, ?_, ?_, ?_, ?_, ?_, nodup_nil, ?_⟩
  · intro pid t ht
    obtain ⟨rfl, rfl⟩ := htask pid t ht
    exact mem_singleton_self _
  · intro pid t ht
    obtain ⟨rfl, rfl⟩ := htask pid t ht
    exact ⟨rfl, Nat.zero_lt_one⟩
  · intro pid t ht
    obtain ⟨rfl, rfl⟩ := htask pid t ht
    exact Or.inl ⟨rfl, rfl⟩
  · intro j
    show (1 : U32) ≠ 0
    decide
  · intro pid
    refine iff_of_false not_mem_nil ?_
    rintro ⟨t, ht, hreaped⟩
    obtain ⟨_, rfl⟩ := htask pid t ht
    cases hreaped
  · intro caller requested pid hmem
    exact absurd hmem not_mem_nil

end Book

/-! ## Fork and clone -/

structure Born (w w' : World) (parent : U32) : Prop where
  tasks : w'.tasks = Function.update w.tasks w.nextPID (some ⟨w.procs.next, false⟩)
  order : w'.order = w.order ++ [w.nextPID]
  nextPID : w'.nextPID = w.nextPID + 1
  next : w'.procs.next = w.procs.next + 1
  old : ∀ j, j ≠ w.procs.next →
    (w'.proc j).pid = (w.proc j).pid ∧ (w'.proc j).parentPID = (w.proc j).parentPID
  pid : (w'.proc w.procs.next).pid = w.nextPID
  parentPID : (w'.proc w.procs.next).parentPID = parent

/-- A task is added to a world in which only the PID has been taken. -/
theorem born_addTask {w₁ : World} (hq : Quiet { w with nextPID := w.nextPID + 1 } w₁)
    (hprocs : w₁.procs = w.procs) {p : Process} (hpid : p.pid = w.nextPID) :
    Born w (w₁.addTask w.nextPID p) p.parentPID where
  tasks := by
    show Function.update w₁.tasks w.nextPID (some ⟨w₁.procs.next, false⟩) = _
    rw [hq.tasks, hprocs]
  order := by
    show w₁.order ++ _ = _
    rw [hq.order]
  nextPID := hq.nextPID
  next := by
    show (w₁.procs.alloc _).next = _
    rw [Heap.next_alloc, hprocs]
  old j hj := by
    have hcell : ∀ q, (w₁.procs.alloc q).cell j = w.procs.cell j := by
      intro q
      rw [Heap.alloc, hprocs]
      exact Function.update_of_ne hj _ _
    show ((w₁.procs.alloc _).cell j).pid = _ ∧ ((w₁.procs.alloc _).cell j).parentPID = _
    rw [hcell]
    exact ⟨rfl, rfl⟩
  pid := by
    show ((w₁.procs.alloc _).cell w.procs.next).pid = _
    rw [← hprocs, Heap.cell_alloc]
    exact hpid
  parentPID := by
    show ((w₁.procs.alloc _).cell w.procs.next).parentPID = _
    rw [← hprocs, Heap.cell_alloc]

theorem quiet_storeWord (w : World) (space : Nat) (asked : Bool) (addr value : U32) :
    Quiet w (w.storeWord space asked addr value).2 ∧
      (w.storeWord space asked addr value).2.procs = w.procs := by
  obtain ⟨mems, hmems⟩ := w.storeWord_eq space asked addr value
  rw [hmems]
  exact ⟨⟨rfl, rfl, rfl, rfl, fun _ => rfl, fun _ => rfl⟩, rfl⟩

section
variable (h : w.runnable parentPID = some k)
include h

theorem runnable_task : ∃ t, w.tasks parentPID = some t ∧ t.process = k := by
  unfold runnable at h
  split at h
  · cases h
  rename_i t ht
  split at h
  · cases h
  · cases h
    exact ⟨t, ht, rfl⟩

theorem fork_born : Born w (w.fork parentPID).2 (w.proc k).pid := by
  unfold fork
  rw [h]
  dsimp only
  generalize hr : ({ w with nextPID := w.nextPID + 1 }.cloneForFork k w.nextPID) = r
  have hpid : r.1.pid = w.nextPID := by rw [← hr]; rfl
  have hparent : r.1.parentPID = (w.proc k).pid := by rw [← hr]; rfl
  have hq : Quiet { w with nextPID := w.nextPID + 1 } r.2 := by
    rw [← hr]
    exact ⟨rfl, rfl, rfl, rfl, fun _ => rfl, fun _ => rfl⟩
  have hprocs : r.2.procs = w.procs := by rw [← hr]; rfl
  rw [← hparent]
  exact born_addTask hq hprocs hpid

theorem clone_born (caller : Nat) (flags childStack parentTID childTID tls : U32) :
    let w' := (w.clone parentPID caller flags childStack parentTID childTID tls).2
    Born w w' parentPID ∨ Quiet { w with nextPID := w.nextPID + 1 } w' := by
  unfold clone
  rw [h]
  dsimp only
  generalize hr : ({ w with nextPID := w.nextPID + 1 }.cloneForThread k w.nextPID childStack tls) = r
  have hpid : r.1.pid = w.nextPID := by rw [← hr]; rfl
  have hq : Quiet { w with nextPID := w.nextPID + 1 } r.2 := by
    rw [← hr]
    exact ⟨rfl, rfl, rfl, rfl, fun _ => rfl, fun _ => rfl⟩
  have hprocs : r.2.procs = w.procs := by rw [← hr]; rfl
  generalize hasked : decide (flags &&& cloneParentSettid ≠ 0) = asked
  obtain ⟨hqa, hpa⟩ := quiet_storeWord r.2 (w.proc caller).space asked parentTID w.nextPID
  split
  · exact Or.inr (hq.trans hqa)
  generalize decide (flags &&& cloneChildSettid ≠ 0) = asked'
  obtain ⟨hqb, hpb⟩ := quiet_storeWord
    (r.2.storeWord (w.proc caller).space asked parentTID w.nextPID).2 r.1.space asked' childTID
    w.nextPID
  split
  · exact Or.inr ((hq.trans hqa).trans hqb)
  · exact Or.inl (born_addTask (p := { r.1 with parentPID := parentPID })
      ((hq.trans hqa).trans hqb) (hpb.trans (hpa.trans hprocs)) hpid)

end

/-! ## What each event keeps -/

theorem issuedPIDs_append (es es' : List Event) :
    issuedPIDs (es ++ es') = issuedPIDs es ++ issuedPIDs es' := filterMap_append

theorem returnedPIDs_append (es es' : List Event) :
    returnedPIDs (es ++ es') = returnedPIDs es ++ returnedPIDs es' := filterMap_append

namespace Book

theorem issued_snoc (h : Book es w) (parent : U32) :
    issuedPIDs (es ++ [.issued parent w.nextPID]) = issuedPIDs es ++ [w.nextPID] ∧
      issuedPIDs (es ++ [.issued parent w.nextPID]) =
        (range ((issuedPIDs es).length + 1)).map fun k => BitVec.ofNat 32 (k + 2) := by
  have happend := issuedPIDs_append es [.issued parent w.nextPID]
  have hnext : BitVec.ofNat 32 ((issuedPIDs es).length + 2) = w.nextPID := by
    rw [← h.next, BitVec.ofNat_toNat, BitVec.setWidth_eq]
  refine ⟨happend, happend.trans ?_⟩
  rw [range_succ, map_append, ← h.issued, map_singleton, hnext]
  rfl

theorem returned_snoc_issued (es : List Event) (parent pid : U32) :
    returnedPIDs (es ++ [.issued parent pid]) = returnedPIDs es := by
  rw [returnedPIDs_append]
  exact append_nil _

section
variable (h : Book es w)
include h

/-- The history of a world in which a PID has been taken, for the parts that are about
events only. -/
theorem toParent_snoc_issued (parent new : U32) (caller requested pid : U32)
    (hmem : Event.waited caller requested pid ∈ es ++ [.issued parent new]) (hpid : IsPID pid) :
    Event.issued caller pid ∈ es ++ [.issued parent new] := by
  rcases mem_append.mp hmem with hmem | hmem
  · exact mem_append_left _ (h.toParent caller requested pid hmem hpid)
  · cases mem_singleton.mp hmem

theorem parent_append (more : List Event) (ht : w.tasks pid = some t) :
    pid = 1 ∧ (w.proc t.process).parentPID = 0 ∨
      Event.issued (w.proc t.process).parentPID pid ∈ es ++ more :=
  (h.parent pid t ht).imp_right (mem_append_left more)

theorem nextPID_ne_zero : w.nextPID ≠ 0 := by
  intro hzero
  have := h.next
  rw [hzero] at this
  simp at this

theorem toNat_next (hfew : (issuedPIDs es).length < 2 ^ 31) :
    (w.nextPID + 1).toNat = (issuedPIDs es).length + 3 := by
  have := h.next
  bv_omega

theorem burned (hfew : (issuedPIDs es).length < 2 ^ 31)
    (hq : Quiet { w with nextPID := w.nextPID + 1 } w') (parent : U32) :
    Book (es ++ [.issued parent w.nextPID]) w' := by
  obtain ⟨hsnoc, hrange⟩ := h.issued_snoc parent
  have hlen : (issuedPIDs (es ++ [.issued parent w.nextPID])).length = (issuedPIDs es).length + 1 := by
    rw [hsnoc, length_append, length_singleton]
  have hbook : Book (es ++ [.issued parent w.nextPID]) { w with nextPID := w.nextPID + 1 } :=
    { next := by
        rw [hlen]
        exact h.toNat_next hfew
      issued := by rw [hlen]; exact hrange
      listed := h.listed
      named := h.named
      parent := fun _ _ => h.parent_append _
      positive := h.positive
      reaped := by
        intro pid
        rw [returned_snoc_issued]
        exact h.reaped pid
      once := by
        rw [returned_snoc_issued]
        exact h.once
      toParent := h.toParent_snoc_issued parent w.nextPID }
  exact hbook.quiet hq

theorem born (hfew : (issuedPIDs es).length < 2 ^ 31) {parent : U32}
    (hb : Born w w' parent) : Book (es ++ [.issued parent w.nextPID]) w' := by
  obtain ⟨hsnoc, hrange⟩ := h.issued_snoc parent
  have hlen : (issuedPIDs (es ++ [.issued parent w.nextPID])).length = (issuedPIDs es).length + 1 := by
    rw [hsnoc, length_append, length_singleton]
  have hfresh := h.fresh hfew
  -- a task is the new one, or an old one under another PID
  have htask : ∀ pid t, w'.tasks pid = some t →
      pid = w.nextPID ∧ t = ⟨w.procs.next, false⟩ ∨ pid ≠ w.nextPID ∧ w.tasks pid = some t := by
    intro pid t ht
    rw [hb.tasks] at ht
    exact update_eq_some_iff.mp ht
  have hold : ∀ pid t, w.tasks pid = some t →
      (w'.proc t.process).pid = (w.proc t.process).pid ∧
        (w'.proc t.process).parentPID = (w.proc t.process).parentPID := by
    intro pid t ht
    exact hb.old t.process (Nat.ne_of_lt (h.named pid t ht).2)
  exact
    { next := by
        rw [hb.nextPID, hlen]
        exact h.toNat_next hfew
      issued := by rw [hlen]; exact hrange
      listed := by
        intro pid t ht
        rw [hb.order]
        rcases htask pid t ht with ⟨rfl, _⟩ | ⟨_, ht⟩
        · exact mem_append_right _ (mem_singleton_self _)
        · exact mem_append_left _ (h.listed pid t ht)
      named := by
        intro pid t ht
        rw [hb.next]
        rcases htask pid t ht with ⟨rfl, rfl⟩ | ⟨_, ht⟩
        · exact ⟨hb.pid, Nat.lt_succ_self _⟩
        · obtain ⟨hpid, hlt⟩ := h.named pid t ht
          exact ⟨(hold pid t ht).1.trans hpid, Nat.lt_succ_of_lt hlt⟩
      parent := by
        intro pid t ht
        rcases htask pid t ht with ⟨rfl, rfl⟩ | ⟨_, ht⟩
        · right
          rw [hb.parentPID]
          exact mem_append_right _ (mem_singleton_self _)
        · rw [(hold pid t ht).2]
          exact h.parent_append _ ht
      positive := by
        intro j
        by_cases hj : j = w.procs.next
        · rw [hj, hb.pid]
          exact h.nextPID_ne_zero
        · rw [(hb.old j hj).1]
          exact h.positive j
      reaped := by
        intro pid
        rw [returned_snoc_issued, h.reaped pid]
        constructor
        · rintro ⟨t, ht, hreaped⟩
          have hne : pid ≠ w.nextPID := by
            rintro rfl
            rw [hfresh] at ht
            cases ht
          rw [hb.tasks]
          exact ⟨t, update_eq_some_iff.mpr (Or.inr ⟨hne, ht⟩), hreaped⟩
        · rintro ⟨t, ht, hreaped⟩
          rcases htask pid t ht with ⟨_, rfl⟩ | ⟨_, ht⟩
          · cases hreaped
          · exact ⟨t, ht, hreaped⟩
      once := by
        rw [returned_snoc_issued]
        exact h.once
      toParent := h.toParent_snoc_issued parent w.nextPID }

end

theorem issued_snoc_waited (es : List Event) (caller requested result : U32) :
    issuedPIDs (es ++ [.waited caller requested result]) = issuedPIDs es := by
  rw [issuedPIDs_append]
  exact append_nil _

theorem returned_snoc_waited (es : List Event) (caller requested result : U32) :
    returnedPIDs (es ++ [.waited caller requested result]) =
      returnedPIDs es ++ if IsPID result then [result] else [] := by
  unfold returnedPIDs Event.returnedPID
  split
  · rename_i h
    simp [h]
  · rename_i h
    simp [h]

/-- A call of `wait4` that does not return a PID. -/
theorem waited_other (h : Book es w) (hq : Quiet w w') (caller requested : U32) {result : U32}
    (hresult : ¬ IsPID result) : Book (es ++ [.waited caller requested result]) w' := by
  have hissued := issued_snoc_waited es caller requested result
  have hreturned := returned_snoc_waited es caller requested result
  rw [if_neg hresult, append_nil] at hreturned
  have hbook : Book (es ++ [.waited caller requested result]) w :=
    { next := by rw [hissued]; exact h.next
      issued := by rw [hissued]; exact h.issued
      listed := h.listed
      named := h.named
      parent := fun _ _ => h.parent_append _
      positive := h.positive
      reaped := by rw [hreturned]; exact h.reaped
      once := by rw [hreturned]; exact h.once
      toParent := by
        intro caller' requested' pid hmem hpid
        rcases mem_append.mp hmem with hmem | hmem
        · exact mem_append_left _ (h.toParent caller' requested' pid hmem hpid)
        · cases mem_singleton.mp hmem
          exact absurd hpid hresult }
  exact hbook.quiet hq

theorem isPID_of_task (h : Book es w) (hfew : (issuedPIDs es).length < 2 ^ 31)
    (ht : w.tasks pid = some t) : IsPID pid := by
  have := h.task_range hfew ht
  unfold IsPID IsErrno
  refine ⟨?_, ?_⟩ <;> bv_omega

theorem issued_of_child (h : Book es w)
    (hchild : w.Child i requested pid t) : Event.issued (w.proc i).pid pid ∈ es := by
  rcases h.parent pid t hchild.task with ⟨_, hzero⟩ | hmem
  · exact absurd (hchild.parent.symm.trans hzero) (h.positive i)
  · rw [← hchild.parent]
    exact hmem

theorem waited_reaped (h : Book es w) (hfew : (issuedPIDs es).length < 2 ^ 31)
    (hchild : w.Child i requested pid t) (mems : Heap Memory) :
    Book (es ++ [.waited (w.proc i).pid requested pid]) ({ w with mems := mems }.markReaped pid t) := by
  have hissued := issued_snoc_waited es (w.proc i).pid requested pid
  have hreturned := returned_snoc_waited es (w.proc i).pid requested pid
  have hpid := h.isPID_of_task hfew hchild.task
  rw [if_pos hpid] at hreturned
  have hnew : pid ∉ returnedPIDs es := by
    intro hmem
    obtain ⟨t', ht', hreaped⟩ := (h.reaped pid).mp hmem
    rw [hchild.task] at ht'
    cases ht'
    rw [hchild.unreaped] at hreaped
    cases hreaped
  -- a task is the one that has been reaped, or an old one under another PID
  have htask : ∀ pid' t', ({ w with mems := mems }.markReaped pid t).tasks pid' = some t' →
      pid' = pid ∧ t' = { t with reaped := true } ∨ pid' ≠ pid ∧ w.tasks pid' = some t' := by
    intro pid' t' ht'
    exact update_eq_some_iff.mp ht'
  -- and has the process of an old one
  have hproc : ∀ pid' t', ({ w with mems := mems }.markReaped pid t).tasks pid' = some t' →
      ∃ t'', w.tasks pid' = some t'' ∧ t''.process = t'.process := by
    intro pid' t' ht'
    rcases htask pid' t' ht' with ⟨rfl, rfl⟩ | ⟨_, ht'⟩
    · exact ⟨t, hchild.task, rfl⟩
    · exact ⟨t', ht', rfl⟩
  exact
    { next := by rw [hissued]; exact h.next
      issued := by rw [hissued]; exact h.issued
      listed := by
        intro pid' t' ht'
        obtain ⟨t'', ht'', _⟩ := hproc pid' t' ht'
        exact h.listed pid' t'' ht''
      named := by
        intro pid' t' ht'
        obtain ⟨t'', ht'', hsame⟩ := hproc pid' t' ht'
        rw [← hsame]
        exact h.named pid' t'' ht''
      parent := by
        intro pid' t' ht'
        obtain ⟨t'', ht'', hsame⟩ := hproc pid' t' ht'
        rw [← hsame]
        exact h.parent_append _ ht''
      positive := h.positive
      reaped := by
        intro pid'
        rw [hreturned, mem_append, mem_singleton, h.reaped pid']
        constructor
        · rintro (⟨t', ht', hreaped⟩ | rfl)
          · have hne : pid' ≠ pid := by
              rintro rfl
              exact hnew ((h.reaped pid').mpr ⟨t', ht', hreaped⟩)
            exact ⟨t', update_eq_some_iff.mpr (Or.inr ⟨hne, ht'⟩), hreaped⟩
          · exact ⟨{ t with reaped := true }, Function.update_self _ _ _, rfl⟩
        · rintro ⟨t', ht', hreaped⟩
          rcases htask pid' t' ht' with ⟨rfl, _⟩ | ⟨_, ht'⟩
          · exact Or.inr rfl
          · exact Or.inl ⟨t', ht', hreaped⟩
      once := by
        rw [hreturned, nodup_append]
        refine ⟨h.once, nodup_singleton _, ?_⟩
        intro a ha b hb hab
        rw [mem_singleton.mp hb] at hab
        exact hnew (hab ▸ ha)
      toParent := by
        intro caller requested' pid' hmem hpid'
        refine mem_append_left _ ?_
        rcases mem_append.mp hmem with hmem | hmem
        · exact h.toParent caller requested' pid' hmem hpid'
        · cases mem_singleton.mp hmem
          exact h.issued_of_child hchild }

theorem not_isPID_zero : ¬ IsPID 0 := by decide
theorem not_isPID_echild : ¬ IsPID echild := by decide
theorem not_isPID_eagain : ¬ IsPID eagain := by decide
theorem not_isPID_efault : ¬ IsPID efault := by decide

theorem wait4 (h : Book es w) (hfew : (issuedPIDs es).length < 2 ^ 31) (i : Nat)
    (requested statusAddr options : U32) :
    Book (es ++ [.waited (w.proc i).pid requested (w.wait4 i requested statusAddr options).1])
      (w.wait4 i requested statusAddr options).2 := by
  have hwaits := waits w i requested statusAddr options
  generalize w.wait4 i requested statusAddr options = r at hwaits
  cases hwaits with
  | childless _ => exact h.waited_other (.refl w) _ requested not_isPID_echild
  | running _ _ _ => exact h.waited_other (.refl w) _ requested not_isPID_zero
  | blocked _ _ _ => exact h.waited_other (.blockWait4 w i _) _ requested not_isPID_eagain
  | unstored _ _ _ _ => exact h.waited_other (.refl w) _ requested not_isPID_efault
  | reaped hf _ _ =>
    have hchild := findChild_some hf
    rw [(h.named _ _ hchild.task).1]
    exact h.waited_reaped hfew hchild _

theorem issue (h : Book es w) (hfew : (issuedPIDs (es ++ w.issue parentPID)).length < 2 ^ 31)
    (hnone : w.runnable parentPID = none → w' = w)
    (hsome : ∀ k, w.runnable parentPID = some k → Born w w' parentPID ∨ Quiet { w with nextPID := w.nextPID + 1 } w') :
    Book (es ++ w.issue parentPID) w' := by
  have hfew' : (issuedPIDs es).length < 2 ^ 31 := by
    rw [issuedPIDs_append, length_append] at hfew
    omega
  unfold World.issue
  cases hk : w.runnable parentPID with
  | none =>
    rw [append_nil, hnone hk]
    exact h
  | some k =>
    rcases hsome k hk with hb | hq
    · exact h.born hfew' hb
    · exact h.burned hfew' hq parentPID

end Book

theorem Trace.book {image : Image} {tty : Option Nat} {objs : Objects}
    (h : Trace (World.start image tty objs) es w) (hfew : (issuedPIDs es).length < 2 ^ 31) : Book es w := by
  induction h with
  | refl => exact Book.start image tty objs
  | quiet _ hq ih => exact (ih hfew).quiet hq
  | @fork es w parentPID _ ih =>
    have hfew' : (issuedPIDs es).length < 2 ^ 31 := by
      rw [issuedPIDs_append, length_append] at hfew
      omega
    refine (ih hfew').issue hfew ?_ ?_
    · intro hnone
      unfold World.fork
      rw [hnone]
    intro k hk
    obtain ⟨t, ht, rfl⟩ := runnable_task hk
    have hb := fork_born hk
    rw [((ih hfew').named _ _ ht).1] at hb
    exact Or.inl hb
  | @clone es w parentPID caller flags childStack parentTID childTID tls _ ih =>
    have hfew' : (issuedPIDs es).length < 2 ^ 31 := by
      rw [issuedPIDs_append, length_append] at hfew
      omega
    refine (ih hfew').issue hfew ?_ ?_
    · intro hnone
      rw [clone_refused hnone]
    · intro k hk
      exact clone_born hk caller flags childStack parentTID childTID tls
  | wait4 i requested statusAddr options _ ih =>
    rw [Book.issued_snoc_waited] at hfew
    exact (ih hfew).wait4 hfew i requested statusAddr options

/-! ## One call -/

/-- What a call of `wait4` owes. -/
structure WaitExact (w : World) (i : Nat) (requested statusAddr : U32) (r : U32 × World) : Prop where
  /-- A PID is that of a child that has exited; its status is stored, and it is reaped. -/
  reaps : IsPID r.1 → ∃ t mems, w.Zombie i requested r.1 t ∧
    w.StatusStored i statusAddr (w.waitStatus t) mems ∧
    r.2 = { w with mems := mems }.markReaped r.1 t
  /-- With any other result no child is reaped. -/
  keeps : ¬ IsPID r.1 → r.2.tasks = w.tasks
  /-- If the status cannot be stored, nothing happens. -/
  unstored : r.1 = efault → r.2 = w
  childless : r.1 = echild ↔ ∀ pid t, ¬ w.Child i requested pid t

theorem Book.waitExact (h : Book es w)
    (hfew : (issuedPIDs es).length < 2 ^ 31) (i : Nat) (requested statusAddr options : U32) :
    w.WaitExact i requested statusAddr (w.wait4 i requested statusAddr options) := by
  have hwaits := waits w i requested statusAddr options
  generalize w.wait4 i requested statusAddr options = r at hwaits
  have hfound : ∀ {pid : U32} {t : Task} {v : U32},
      w.findChild (w.proc i) requested = some (pid, t) → v ≠ echild →
        (v = echild ↔ ∀ pid t, ¬ w.Child i requested pid t) := by
    intro pid t v hf hv
    refine iff_of_false hv ?_
    intro hall
    exact hall pid t (findChild_some hf)
  cases hwaits with
  | childless hnone =>
    refine ⟨fun hp => absurd hp Book.not_isPID_echild, fun _ => rfl, fun _ => rfl, ?_⟩
    exact iff_of_true rfl (findChild_none hnone (h.scheduled hfew))
  | running hf _ _ =>
    exact ⟨fun hp => absurd hp Book.not_isPID_zero, fun _ => rfl, fun _ => rfl,
      hfound hf (show (0 : U32) ≠ echild by decide)⟩
  | blocked hf _ _ =>
    refine ⟨fun hp => absurd hp Book.not_isPID_eagain, fun _ => ?_, fun he => ?_,
      hfound hf (show eagain ≠ echild by decide)⟩
    · exact (Quiet.blockWait4 w i _).tasks
    · exact absurd he (show eagain ≠ efault by decide)
  | unstored hf _ _ _ =>
    exact ⟨fun hp => absurd hp Book.not_isPID_efault, fun _ => rfl, fun _ => rfl,
      hfound hf (show efault ≠ echild by decide)⟩
  | @reaped pid t mems hf hexited hstored =>
    have hchild := findChild_some hf
    have hpid := h.isPID_of_task hfew hchild.task
    have hne : pid ≠ echild := by
      rintro rfl
      exact Book.not_isPID_echild hpid
    rw [(h.named _ _ hchild.task).1]
    refine ⟨fun _ => ⟨t, mems, ⟨hchild, hexited⟩, hstored, rfl⟩, fun hn => absurd hpid hn,
      fun he => ?_, hfound hf hne⟩
    rw [show pid = efault from he] at hpid
    exact absurd hpid Book.not_isPID_efault

/-- Along every run of forks, clones, waits and anything else on which fewer than `2^31` PIDs
are taken: no PID is given out twice, none is returned twice, and none to a process that has
not taken it; and the next call of `wait4`, whoever makes it, is exact. -/
theorem reaping_exact (image : Image) (tty : Option Nat) (objs : Objects) (es : List Event)
    (w : World) (h : Trace (start image tty objs) es w) (hfew : (issuedPIDs es).length < 2 ^ 31) :
    (issuedPIDs es).Nodup ∧ (returnedPIDs es).Nodup ∧
      (∀ caller requested pid, Event.waited caller requested pid ∈ es → IsPID pid →
        Event.issued caller pid ∈ es) ∧
      ∀ i requested statusAddr options,
        w.WaitExact i requested statusAddr (w.wait4 i requested statusAddr options) := by
  have hbook := h.book hfew
  exact ⟨hbook.issued_nodup hfew, hbook.once, hbook.toParent, hbook.waitExact hfew⟩

def childExited : World :=
  ((start ⟨CPU.new, Memory.new 16, 0⟩ none Objects.new).fork 1).2.setState 1 .exited

theorem childExited_trace :
    Trace (start ⟨CPU.new, Memory.new 16, 0⟩ none Objects.new) [.issued 1 2, .waited 1 (-1) 2]
      (childExited.wait4 0 (-1) 0 0).2 :=
  ((Trace.refl.fork 1).quiet (Quiet.setState _ 1 .exited)).wait4 0 (-1) 0 0

/-- The PID has been returned once, and the next wait finds no child. -/
theorem reaping_exact_childExited :
    let w := (childExited.wait4 0 (-1) 0 0).2
    returnedPIDs [.issued 1 2, .waited 1 (-1) 2] = [2] ∧
      w.WaitExact 0 (-1) 0 (w.wait4 0 (-1) 0 0) ∧ (w.wait4 0 (-1) 0 0).1 = echild := by
  obtain ⟨_, _, _, hexact⟩ := reaping_exact ⟨CPU.new, Memory.new 16, 0⟩ none Objects.new
    [.issued 1 2, .waited 1 (-1) 2] _ childExited_trace (by decide)
  exact ⟨by decide, hexact 0 (-1) 0 0, by decide⟩

/-! ## Every run of the scheduler -/

/-- The tasks are what the forks, clones and waits so far have made of them, as long as the PIDs
last. -/
def Booked (w : World) : Prop := ∃ image tty objs es, Trace (start image tty objs) es w ∧
  ((issuedPIDs es).length < 2 ^ 31 → Book es w)

theorem scheduler_books {env : Env} {C : World → Prop} (h : Reach env C w) : Booked w := by
  obtain ⟨image, tty, objs, es, ht⟩ := h.trace
  exact ⟨image, tty, objs, es, ht, ht.book⟩

/-- A program that forks; the child has `0` in `EAX` and exits, the parent has `2` and waits:

    INT 0x80; IMUL EAX, EAX, 113; SHR EAX, 1; INC EAX; INT 0x80 -/
def forkAndWait : World :=
  let code : List U8 := [0xCD, 0x80, 0x6B, 0xC0, 113, 0xD1, 0xE8, 0x40, 0xCD, 0x80]
  let regs : Reg → U32 := fun r => if r = EAX then 2 else if r = EBX then -1 else 0
  start ⟨{ CPU.new with regs := regs }, { Memory.new 64 with data := fun a => code.getD a.toNat 0 }, 0⟩
    none Objects.new

/-- In ten turns the parent forks and blocks, the child exits, and the parent gets its PID. -/
theorem scheduler_books_forkAndWait :
    Booked (turns 10 forkAndWait) ∧ ((turns 10 forkAndWait).tasks 2).map Task.reaped = some true :=
  ⟨scheduler_books (reach_turns (C := fun _ => True) (.start _ none rfl) 10 fun _ _ => trivial), by decide +kernel⟩

end World

end IshGo.Guest
