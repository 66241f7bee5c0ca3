/-
# `IshGo.Guest.Invariant` — what every operation of the scheduler keeps

    table, task    numbers point to cells in use
    counted        the counts of all pipes are right for all tables together, with the
                   handles that `CloneForThread` has dropped
    released       a process that is dead, and is not a thread, has an empty table
    leaked         if `strict`, no handle has been dropped
-/
import IshGo.Guest.ThreadClone
import IshGo.Kernel.Effects

namespace IshGo.Guest

open I386 Kernel Lib Heap List

variable {k : Nat} {p : Process} {pid : U32} {s : KState}
variable {P : Prop} {t : Task} {α : Type}

namespace World

def dead (w : World) (i : Nat) : Bool :=
  (w.proc i).state = .exited ∧ (w.proc i).kern.thread = false

def shared (w : World) (i : Nat) : Bool :=
  (range w.procs.next).any fun j => w.dead j ∧ (w.proc j).table = (w.proc i).table

structure Inv (strict : Prop) (w : World) : Prop where
  table : ∀ i < w.procs.next, (w.proc i).table < w.tables.next
  task : ∀ pid t, w.tasks pid = some t → t.process < w.procs.next
  counted : w.objs.Counted (w.tables.gather Files.held ++ w.leaked)
  released : ∀ i < w.procs.next, w.dead i = true → (w.files i).Empty
  leaked : strict → w.leaked = []

structure InvAt (strict : Prop) (w : World) (i : Nat) : Prop extends Inv strict w where
  lt : i < w.procs.next

theorem shared_of_dead {w : World} {i j : Nat} (hj : j < w.procs.next) (hd : w.dead j = true)
    (ht : (w.proc j).table = (w.proc i).table) : w.shared i = true :=
  any_eq_true.mpr ⟨j, mem_range.mpr hj, decide_eq_true ⟨hd, ht⟩⟩

/-! ## Parts of the world that the invariant does not see -/

section

variable {strict : Prop} {w w' : World} {i : Nat}

theorem Inv.of_eq (h : Inv strict w) (hp : w'.procs = w.procs) (ht : w'.tasks = w.tasks)
    (htab : w'.tables = w.tables) (ho : w.objs.SameCounts w'.objs) (hl : w'.leaked = w.leaked) :
    Inv strict w' where
  table := by
    simp only [proc, hp, htab]
    exact h.table
  task := by
    rw [ht, hp]
    exact h.task
  counted := by
    rw [htab, hl]
    exact h.counted.same ho
  released := by
    simp only [dead, files, proc, hp, htab]
    exact h.released
  leaked := by
    rw [hl]
    exact h.leaked

section
variable (h : InvAt strict w i)
include h

theorem InvAt.of_eq (hp : w'.procs = w.procs) (ht : w'.tasks = w.tasks)
    (htab : w'.tables = w.tables) (ho : w.objs.SameCounts w'.objs) (hl : w'.leaked = w.leaked) :
    InvAt strict w' i := ⟨h.toInv.of_eq hp ht htab ho hl, hp ▸ h.lt⟩

theorem InvAt.storeWord (space : Nat) (asked : Bool) (addr value : U32) :
    InvAt strict (w.storeWord space asked addr value).2 i := by
  obtain ⟨mems, hmems⟩ := w.storeWord_eq space asked addr value
  rw [hmems]
  exact h.of_eq rfl rfl rfl (Std.Refl.refl _) rfl

/-! ## One process -/

theorem InvAt.setProc (htab : p.table = (w.proc i).table)
    (hdead : p.state = .exited → p.kern.thread = false → (w.files i).Empty) :
    InvAt strict (w.setProc i p) i where
  table := forall_set w.procs i (P := fun q : Process => q.table < w.tables.next)
    (htab ▸ h.table i h.lt) h.table
  task := h.task
  counted := h.counted
  released := by
    refine forall_set w.procs i
      (P := fun q : Process => decide (q.state = .exited ∧ q.kern.thread = false) = true →
        (w.tables.cell q.table).Empty) (fun hd => ?_) h.released
    rw [htab]
    exact hdead (of_decide_eq_true hd).1 (of_decide_eq_true hd).2
  leaked := h.leaked
  lt := h.lt

theorem InvAt.setProc_same (htab : p.table = (w.proc i).table)
    (hstate : p.state = (w.proc i).state) (hthread : p.kern.thread = (w.proc i).kern.thread) :
    InvAt strict (w.setProc i p) i :=
  h.setProc htab fun hs ht =>
    h.released i h.lt (decide_eq_true ⟨hstate ▸ hs, hthread ▸ ht⟩)

theorem InvAt.setState {state : PState} (hs : state ≠ .exited) : InvAt strict (w.setState i state) i :=
  h.setProc rfl fun hexited => absurd hexited hs

theorem InvAt.countStep : InvAt strict (w.countStep i) i := h.setProc_same rfl rfl rfl

theorem InvAt.countProcess : InvAt strict (w.countProcess i) i := h.setProc_same rfl rfl rfl

theorem InvAt.unblockWait : InvAt strict (w.unblockWait i) i := h.setProc_same rfl rfl rfl

theorem InvAt.blockWait4 (b : WaitBlock) : InvAt strict (w.blockWait4 i b) i := by
  simp only [World.blockWait4]
  split
  · exact h
  · exact h.setProc_same rfl rfl rfl

theorem InvAt.faulted (e : ProcFault) : InvAt strict (w.faulted i e).2 i :=
  h.setProc rfl fun hs => nomatch hs

theorem InvAt.exited
    (he : (w.proc i).kern.thread = false → (w.files i).Empty) : InvAt strict (w.exited i).2 i :=
  h.setProc rfl fun _ ht => he ht

theorem InvAt.putMachine (m : Machine) : InvAt strict (w.putMachine i m) i :=
  (h.setProc_same (p := { w.proc i with cpu := m.toCPU }) rfl rfl rfl).of_eq rfl rfl rfl
    (Std.Refl.refl _) rfl

end

/-! ## The kernel of a process -/

theorem leave_proc (f : Process → α)
    (hf : f { w.proc i with cpu := s.cpu, kern := s.kern } = f (w.proc i)) (j : Nat) :
    f ((w.leave i s).proc j) = f (w.proc j) :=
  w.procs.map_cell_set f hf j

theorem leave_table (w : World) (i : Nat) (s : KState) (j : Nat) :
    ((w.leave i s).proc j).table = (w.proc j).table := leave_proc Process.table rfl j

theorem leave_dead (ht : s.kern.thread = (w.proc i).kern.thread) (j : Nat) :
    (w.leave i s).dead j = w.dead j := by
  refine leave_proc (fun p => decide (p.state = .exited ∧ p.kern.thread = false)) ?_ j
  simp only [ht]

section
variable (h : InvAt strict w i)
include h

/-- What a kernel does keeps the invariant, unless it installs a descriptor for a dead
process. -/
theorem InvAt.leave (he : Effect P (w.enter i) s)
    (hP : P → w.shared i = false) : InvAt strict (w.leave i s) i where
  table := by
    intro j hj
    rw [leave_table w i s j]
    exact h.table j hj
  task := h.task
  counted := by
    -- the table of the process first, the others untouched
    obtain ⟨rest, hbefore, hafter⟩ := w.tables.gather_perm Files.held (h.table i h.lt)
    have hcounted : w.objs.Counted ((w.files i).held ++ (rest ++ w.leaked)) := by
      rw [← append_assoc]
      exact h.counted.perm (hbefore.append_right _)
    have hs := he.accounts (rest ++ w.leaked) hcounted
    rw [← append_assoc] at hs
    exact hs.perm ((hafter s.files).symm.append_right _)
  released := by
    intro j hj hd
    rw [leave_dead he.thread] at hd
    have hempty := h.released j hj hd
    show ((w.tables.set (w.proc i).table s.files).cell ((w.leave i s).proc j).table).Empty
    rw [leave_table w i s j]
    by_cases hsame : (w.proc j).table = (w.proc i).table
    · rw [hsame, cell_set]
      rw [files, hsame] at hempty
      have hshared : w.shared i = true := shared_of_dead hj hd hsame
      refine he.empty (fun hp => ?_) hempty
      rw [hP hp] at hshared
      cases hshared
    · rw [cell_set_ne _ _ hsame]
      exact hempty
  leaked := h.leaked
  lt := h.lt

theorem InvAt.leave_aside (ha : Aside (w.enter i) s) : InvAt strict (w.leave i s) i :=
  h.leave (ha.effect False) False.elim

theorem InvAt.ret (v : U32) : InvAt strict (w.ret i v) i := h.leave_aside (.of_objs rfl rfl rfl)

theorem InvAt.runKernel {x : KernelM α}
    (he : Effect P (w.enter i) (after x (w.enter i))) (hP : P → w.shared i = false) :
    InvAt strict (w.runKernel i x).2 i := by
  have hleave := h.leave he hP
  rw [World.runKernel]
  cases hx : x (w.enter i) with
  | ok a s =>
    rw [after_ok hx] at hleave
    exact hleave
  | error e s =>
    rw [after_error hx] at hleave
    exact hleave.of_eq rfl rfl rfl (Std.Refl.refl _) rfl

/-- `CloseOnExit` leaves an empty table, unless the process is a thread. -/
theorem InvAt.closeOnExit :
    InvAt strict (w.closeOnExit i) i ∧
      (((w.closeOnExit i).proc i).kern.thread = false → ((w.closeOnExit i).files i).Empty) := by
  rw [World.closeOnExit]
  cases ht : (w.proc i).kern.thread with
  | true =>
    rw [if_pos rfl]
    exact ⟨h, fun hf => by rw [ht] at hf; cases hf⟩
  | false =>
    refine ⟨h.leave (effect_closeOnExit (w.enter i)) False.elim, fun _ fd => ?_⟩
    show ((w.tables.set (w.proc i).table _).cell ((w.leave i _).proc i).table).fds.lookup fd = none
    rw [leave_table w i _ i, cell_set, closeOnExit_fds]
    rfl

end

/-! ## New processes -/

theorem runnable_lt (h : ∀ pid t, w.tasks pid = some t → t.process < w.procs.next) (hk : w.runnable pid = some k) :
    k < w.procs.next := by
  rw [runnable] at hk
  split at hk
  · cases hk
  rename_i t ht
  split at hk
  · cases hk
  · exact Option.some.inj hk ▸ h pid t ht

theorem InvAt.addTask (h : InvAt strict w i) (pid : U32) (htab : p.table < w.tables.next)
    (hs : p.state ≠ .exited) : InvAt strict (w.addTask pid p) i where
  table := forall_alloc w.procs (P := fun q : Process => q.table < w.tables.next) htab h.table
  task := by
    intro pid' t ht
    by_cases hpid : pid' = pid
    · subst hpid
      simp only [World.addTask, Function.update_self, Option.some.injEq] at ht
      subst ht
      exact Nat.lt_succ_self _
    · simp only [World.addTask, Function.update_of_ne hpid] at ht
      exact Nat.lt_succ_of_lt (h.task pid' t ht)
  counted := h.counted
  released := forall_alloc w.procs
    (P := fun q : Process => decide (q.state = .exited ∧ q.kern.thread = false) = true →
      (w.tables.cell q.table).Empty)
    (fun hd => absurd (of_decide_eq_true hd).1 hs) h.released
  leaked := h.leaked
  lt := Nat.lt_succ_of_lt h.lt

/-- The clones that `CloneForChild` makes of the handles of a process. -/
theorem Inv.counted_clones (h : Inv strict w) (hk : k < w.procs.next) :
    ((w.files k).cloneForChild w.objs).2.Counted
      (((w.files k).cloneForChild w.objs).1.held ++ (w.tables.gather Files.held ++ w.leaked)) := by
  obtain ⟨rest, hperm, _⟩ := w.tables.gather_perm Files.held (h.table k hk)
  have hcounted : w.objs.Counted ((w.files k).held ++ (rest ++ w.leaked)) := by
    rw [← append_assoc]
    exact h.counted.perm (hperm.append_right _)
  have hclones := counted_cloneForChild hcounted
  refine hclones.perm (List.Perm.append_left _ ?_)
  rw [← append_assoc]
  exact hperm.symm.append_right _

theorem InvAt.cloneForFork (h : InvAt strict w i) (hk : k < w.procs.next) (pid : U32) :
    InvAt strict (w.cloneForFork k pid).2 i where
  table := fun j hj => Nat.lt_succ_of_lt (h.table j hj)
  task := h.task
  counted := by
    show Objects.Counted _ ((w.tables.alloc _).gather Files.held ++ w.leaked)
    rw [gather_alloc]
    exact (h.counted_clones hk).perm
      ((perm_append_comm_assoc _ _ _).trans (append_assoc _ _ _ ▸ List.Perm.refl _))
  released := by
    intro j hj hd
    show ((w.tables.alloc _).cell (w.proc j).table).Empty
    rw [cell_alloc_lt _ _ (h.table j hj)]
    exact h.released j hj hd
  leaked := h.leaked
  lt := h.lt

theorem InvAt.cloneForThread (h : InvAt strict w i) (hk : k < w.procs.next)
    (hstrict : strict → (w.files k).NoPipes) (pid childStack tls : U32) :
    InvAt strict (w.cloneForThread k pid childStack tls).2 i where
  table := h.table
  task := h.task
  counted := by
    refine (h.counted_clones hk).perm ?_
    exact perm_append_comm_assoc _ _ _
  released := h.released
  leaked := by
    intro hs
    show ((w.files k).cloneForChild w.objs).1.held ++ w.leaked = []
    rw [(hstrict hs).cloneForChild_held, h.leaked hs]
    rfl
  lt := h.lt

theorem InvAt.fork (h : InvAt strict w i) (pid : U32) : InvAt strict (w.fork pid).2 i := by
  rw [World.fork]
  cases hk : w.runnable pid with
  | none => exact h
  | some k =>
    have hnext : InvAt strict { w with nextPID := w.nextPID + 1 } i :=
      h.of_eq rfl rfl rfl (Std.Refl.refl _) rfl
    exact (hnext.cloneForFork (runnable_lt h.task hk) w.nextPID).addTask w.nextPID
      (Nat.lt_succ_self _) (nomatch ·)

theorem InvAt.clone (h : InvAt strict w i) (pid : U32)
    (hstrict : strict → ∀ k, w.runnable pid = some k → (w.files k).NoPipes)
    (caller : Nat) (flags childStack parentTID childTID tls : U32) :
    InvAt strict (w.clone pid caller flags childStack parentTID childTID tls).2 i := by
  rw [World.clone]
  cases hk : w.runnable pid with
  | none => exact h
  | some k =>
    have hlt := runnable_lt h.task hk
    have hnext : InvAt strict { w with nextPID := w.nextPID + 1 } i :=
      h.of_eq rfl rfl rfl (Std.Refl.refl _) rfl
    have hthread := hnext.cloneForThread hlt (fun hs => hstrict hs k hk) w.nextPID childStack tls
    simp only
    split
    · exact hthread.storeWord ..
    split
    · exact (hthread.storeWord ..).storeWord ..
    refine ((hthread.storeWord ..).storeWord ..).addTask w.nextPID ?_ (fun hs => by cases hs)
    obtain ⟨_, hb⟩ := storeWord_eq _ _ _ childTID w.nextPID
    obtain ⟨_, ha⟩ := storeWord_eq _ _ _ parentTID w.nextPID
    rw [hb, ha]
    exact h.table k hlt

/-! ## Wait and exec -/

theorem findChild_task {parent : Process} {requested : U32}
    (h : w.findChild parent requested = some (pid, t)) : w.tasks pid = some t := by
  obtain ⟨pid', _, hpid⟩ := exists_of_findSome?_eq_some h
  split at hpid
  · cases hpid
  rename_i t' ht'
  split at hpid
  · cases hpid
    exact ht'
  · cases hpid

section
variable (h : InvAt strict w i)
include h

theorem InvAt.reap (ht : w.tasks pid = some t)
    (statusAddr : U32) : InvAt strict (w.reap i pid t statusAddr).2 i := by
  have hlt : t.process < w.procs.next := h.task pid t ht
  obtain ⟨mems, hmems⟩ := w.storeWord_eq (w.proc i).space true statusAddr
    (((w.proc t.process).exitCode &&& 0xff) <<< 8)
  have hstore : InvAt strict { w with mems := mems } i := h.of_eq rfl rfl rfl (Std.Refl.refl _) rfl
  simp only [World.reap, hmems]
  split
  · exact hstore
  refine { hstore with task := fun pid' t' ht' => ?_ }
  by_cases hpid : pid' = pid
  · subst hpid
    simp only [Function.update_self, Option.some.injEq] at ht'
    subst ht'
    exact hlt
  · simp only [Function.update_of_ne hpid] at ht'
    exact h.task pid' t' ht'

theorem InvAt.wait4 (requested statusAddr options : U32) :
    InvAt strict (w.wait4 i requested statusAddr options).2 i := by
  rw [World.wait4]
  cases hf : w.findChild (w.proc i) requested with
  | none => exact h
  | some found =>
    obtain ⟨pid, t⟩ := found
    simp only
    split
    · split
      · exact h
      · exact h.blockWait4 _
    · exact h.reap (findChild_task hf) statusAddr

theorem InvAt.nextTick : InvAt strict w.nextTick i :=
  h.of_eq rfl rfl rfl ⟨fun _ _ => rfl, rfl, rfl, rfl⟩ rfl

theorem InvAt.install (image : Image) : InvAt strict (w.install i image) i := by
  have hclosed : InvAt strict (w.leave i (w.enter i).closeCloexec) i :=
    h.leave (TableOp.effect Host.silent (w.enter i) .closeCloexec) (nomatch ·)
  exact (hclosed.setProc_same (p := Process.withImage _ image _) rfl rfl rfl).of_eq rfl rfl rfl
    (Std.Refl.refl _) rfl

theorem InvAt.replaceImage (env : Env) (path : List U8)
    (argv envp : List (List U8)) : InvAt strict (w.replaceImage env i path argv envp).2 i := by
  rw [World.replaceImage]
  split
  · exact h.nextTick
  simp only
  split
  · exact h.nextTick.nextTick
  · exact h.nextTick.nextTick.install _

theorem InvAt.execve (env : Env) (pathAddr argvAddr envpAddr : U32) :
    InvAt strict (w.execve env i pathAddr argvAddr envpAddr) i := by
  simp only [World.execve]
  split
  · split
    · exact ((h.replaceImage env _ _ _).ret _).countStep
    · exact h.replaceImage env _ _ _
  · exact (h.ret efault).countStep

/-! ## System calls and blocked tasks -/

/-- A system call keeps the invariant, if it neither installs a descriptor for a dead
process nor, if `strict`, makes a thread of a process with pipes. -/
theorem InvAt.handle (env : Env)
    (hinstalls : (decode (w.proc i).cpu.regs).installs = true → w.shared i = false)
    (hstrict : strict → ∀ flags childStack parentTID childTID tls,
      decode (w.proc i).cpu.regs = .task (.clone flags childStack parentTID childTID tls) →
        ∀ k, w.runnable (w.proc i).pid = some k → (w.files k).NoPipes) : InvAt strict (w.handle env i) i := by
  rw [World.handle]
  split
  · exact ((h.fork _).ret _).countStep
  · rename_i flags childStack parentTID childTID tls hr
    exact ((h.clone _ (fun hs => hstrict hs _ _ _ _ _ hr) i _ _ _ _ _).ret _).countStep
  · exact ((h.wait4 _ _ _).ret _).countStep
  · exact h.execve env _ _ _
  have hrun := h.runKernel (Request.effect env.host env.services _ (w.enter i)) hinstalls
  simp only
  split
  · exact hrun
  · exact hrun.countStep

theorem InvAt.tryResumeBlockedWait (b : WaitBlock) : InvAt strict (w.tryResumeBlockedWait i b).2 i := by
  simp only [World.tryResumeBlockedWait]
  split
  · exact h.unblockWait.wait4 _ _ _
  · exact (h.unblockWait.wait4 _ _ _).unblockWait.ret _

theorem InvAt.tryResumeBlocked (env : Env) : InvAt strict (w.tryResumeBlocked env i).2 i := by
  rw [World.tryResumeBlocked]
  split
  · exact h.tryResumeBlockedWait _
  split
  · exact h.leave_aside (futexFrame_tryResumeBlockedFutex (w.enter i) env.host).toAside
  split
  · exact h
  rename_i b _
  have hmoves : Moves (w.enter i) (after (tryResumeBlockedPipe env.host b) (w.enter i)) :=
    Stays.stays _
  exact h.runKernel (hmoves.aside.effect False) False.elim

end

end

end World

end IshGo.Guest
