/-
# `IshGo.Guest.Marked` — a step but for the signal it takes

`w.mark m i` is the world `w` in which the signals of `m` are pending for process `i`.  Apart from
`takeNext`, whatever makes up a step of process `i` does in `w.mark m i` what it does in `w`: it
commutes with `mark`.  New processes have no pending signals, so this holds for `fork` and `clone`
as well.
-/
import IshGo.Guest.Acts
import IshGo.Kernel.Marked

namespace IshGo.Guest

open I386 Kernel Lib Heap

/-- The signals of `m` are pending. -/
def Process.mark (m : U64) (p : Process) : Process := { p with kern := p.kern.mark m }

namespace World

/-- The signals of `m` are pending for process `i`. -/
def mark (m : U64) (i : Nat) (w : World) : World := w.setProc i ((w.proc i).mark m)

variable {m : U64} {i : Nat} {w : World}

/-! ## Cells -/

theorem proc_mark_self : (w.mark m i).proc i = (w.proc i).mark m := cell_set w.procs i _

theorem proc_mark_ne {j : Nat} (h : j ≠ i) : (w.mark m i).proc j = w.proc j :=
  cell_set_ne w.procs _ h

theorem proc_mark {α : Type} (f : Process → α) (hf : ∀ p : Process, f (p.mark m) = f p) (j : Nat) :
    f ((w.mark m i).proc j) = f (w.proc j) := map_cell_set f w.procs (hf _) j

theorem enter_mark : (w.mark m i).enter i = (w.enter i).mark m := by
  simp only [enter, files, proc_mark_self]
  rfl

theorem setProc_setProc (w : World) (i : Nat) (p q : Process) :
    (w.setProc i p).setProc i q = w.setProc i q := by
  simp only [setProc, set_set]

/-- A change of the process, whatever its pending signals are. -/
theorem mark_own {g : Process → Process} (hg : ∀ p : Process, g (p.mark m) = (g p).mark m) :
    (w.mark m i).setProc i (g ((w.mark m i).proc i)) = (w.setProc i (g (w.proc i))).mark m i := by
  have hself : (w.setProc i (g (w.proc i))).proc i = g (w.proc i) := cell_set w.procs i _
  rw [proc_mark_self, hg, mark, mark, hself, setProc_setProc, setProc_setProc]

theorem leave_mark (s : KState) : (w.mark m i).leave i s = w.leave i s := by
  have hprocs (p : Process) : (w.mark m i).procs.set i p = w.procs.set i p := set_set w.procs i _ _
  simp only [leave, proc_mark_self, hprocs]
  rfl

theorem mark_leave (s : KState) : (w.leave i s).mark m i = w.leave i (s.mark m) := by
  have hself : (w.leave i s).proc i = { w.proc i with cpu := s.cpu, kern := s.kern } :=
    cell_set w.procs i _
  rw [mark, hself]
  simp only [setProc, leave, set_set]
  rfl

theorem mark_onKernel {f : KState → KState} (hf : MissesMark m f) :
    (w.mark m i).leave i (f ((w.mark m i).enter i)) = (w.leave i (f (w.enter i))).mark m i := by
  rw [enter_mark, leave_mark, hf, mark_leave]

/-- A result, with the signals of `m` pending. -/
def markResult {α : Type} (m : U64) (i : Nat) (r : α × World) : α × World := (r.1, r.2.mark m i)

theorem mark_runKernel {α : Type} (x : KernelM α) [hx : Commutes (KState.mark m) x] :
    (w.mark m i).runKernel i x = markResult m i (w.runKernel i x) := by
  unfold runKernel
  rw [enter_mark, hx.commutes]
  cases x (w.enter i) with
  | ok a s =>
    show (some a, (w.mark m i).leave i (s.mark m)) = (some a, (w.leave i s).mark m i)
    rw [leave_mark, mark_leave]
  | error e s =>
    show (none, { (w.mark m i).leave i (s.mark m) with hung := true }) =
      (none, { (w.leave i s).mark m i with hung := true })
    rw [leave_mark, mark_leave]

theorem mark_ret (v : U32) : (w.mark m i).ret i v = (w.ret i v).mark m i :=
  mark_onKernel (f := (·.ret v)) fun _ => rfl

theorem mark_countStep : (w.mark m i).countStep i = (w.countStep i).mark m i :=
  mark_own (g := fun p => { p with cpu := { p.cpu with steps := p.cpu.steps + 1 } }) fun _ => rfl

theorem mark_setState (state : PState) : (w.mark m i).setState i state = (w.setState i state).mark m i :=
  mark_own (g := fun p => { p with state := state }) fun _ => rfl

theorem mark_unblockWait : (w.mark m i).unblockWait i = (w.unblockWait i).mark m i :=
  mark_own (g := fun p => { p with kern := { p.kern with blockedWait := none } }) fun _ => rfl

theorem mark_faulted (e : ProcFault) : (w.mark m i).faulted i e = markResult m i (w.faulted i e) :=
  congrArg (Prod.mk Outcome.fault)
    (mark_own (g := fun p => { p with state := .faulted, fault := some e }) fun _ => rfl)

theorem mark_exited : (w.mark m i).exited i = markResult m i (w.exited i) :=
  congrArg (Prod.mk Outcome.ok)
    (mark_own (g := fun p => { p with state := .exited, exitCode := p.kern.exitCode }) fun _ => rfl)

theorem mark_killed (signal : Nat) : (w.mark m i).killed i signal = markResult m i (w.killed i signal) := by
  have hown := mark_own (m := m) (i := i) (w := w) (g := fun p => { p with
    kern := { p.kern with exited := true, exitCode := 128 + BitVec.ofNat 32 signal } }) fun _ => rfl
  exact (congrArg (exited · i) hown).trans mark_exited

theorem mark_countProcess : (w.mark m i).countProcess i = (w.countProcess i).mark m i :=
  mark_own (g := fun p => { p with steps := p.steps + 1 }) fun _ => rfl

/-! ## New processes -/

theorem mark_addTask (hi : i < w.procs.next) (pid : U32) (p : Process) :
    (w.mark m i).addTask pid p = (w.addTask pid p).mark m i := by
  have hproc : (w.addTask pid p).proc i = w.proc i := cell_alloc_lt w.procs _ hi
  rw [mark, mark, hproc]
  show { w with procs := (w.procs.set i _).alloc _, tasks := _, order := _ } =
    { w with procs := (w.procs.alloc _).set i _, tasks := _, order := _ }
  rw [alloc_set _ _ _ hi]
  rfl

theorem mark_cloneForFork (k : Nat) (pid : U32) :
    (w.mark m i).cloneForFork k pid = markResult m i (w.cloneForFork k pid) := by
  unfold cloneForFork files
  by_cases hk : k = i
  · subst hk
    rw [proc_mark_self]
    rfl
  · rw [proc_mark_ne hk]
    rfl

theorem mark_cloneForThread (k : Nat) (pid childStack tls : U32) :
    (w.mark m i).cloneForThread k pid childStack tls =
      markResult m i (w.cloneForThread k pid childStack tls) := by
  unfold cloneForThread files
  by_cases hk : k = i
  · subst hk
    rw [proc_mark_self]
    rfl
  · rw [proc_mark_ne hk]
    rfl

theorem mark_runnable (pid : U32) : (w.mark m i).runnable pid = w.runnable pid := by
  unfold runnable
  rw [show (w.mark m i).tasks = w.tasks from rfl]
  cases w.tasks pid with
  | none => rfl
  | some t =>
    dsimp only
    rw [proc_mark (·.state) fun _ => rfl]

theorem mark_fork (hi : i < w.procs.next) (pid : U32) :
    (w.mark m i).fork pid = markResult m i (w.fork pid) := by
  unfold fork
  rw [mark_runnable]
  cases w.runnable pid with
  | none => rfl
  | some k =>
    have hclone := mark_cloneForFork (m := m) (i := i) (w := { w with nextPID := w.nextPID + 1 }) k
      w.nextPID
    show (some w.nextPID, (({ w with nextPID := w.nextPID + 1 }.mark m i).cloneForFork k
      w.nextPID).2.addTask w.nextPID (({ w with nextPID := w.nextPID + 1 }.mark m i).cloneForFork k
      w.nextPID).1) = _
    have hnext : i < ({ w with nextPID := w.nextPID + 1 }.cloneForFork k w.nextPID).2.procs.next := hi
    rw [hclone]
    dsimp only [markResult]
    rw [mark_addTask hnext]

theorem mark_storeWord (space : Nat) (asked : Bool) (addr value : U32) :
    (w.mark m i).storeWord space asked addr value =
      markResult m i (w.storeWord space asked addr value) := by
  unfold storeWord
  rw [show (w.mark m i).mems = w.mems from rfl]
  split
  · rfl
  split
  · rfl
  · rfl

theorem mark_clone (hi : i < w.procs.next) (parentPID : U32)
    (flags childStack parentTID childTID tls : U32) :
    (w.mark m i).clone parentPID i flags childStack parentTID childTID tls =
      markResult m i (w.clone parentPID i flags childStack parentTID childTID tls) := by
  unfold clone
  rw [mark_runnable]
  cases w.runnable parentPID with
  | none => rfl
  | some k =>
    have hclone := mark_cloneForThread (m := m) (i := i) (w := { w with nextPID := w.nextPID + 1 }) k
      w.nextPID childStack tls
    have hclone' : { w.mark m i with nextPID := (w.mark m i).nextPID + 1 }.cloneForThread k
        (w.mark m i).nextPID childStack tls = _ := hclone
    have hspace := proc_mark (m := m) (i := i) (w := w) (·.space) (fun _ => rfl) i
    dsimp only
    rw [hclone', hspace, show (w.mark m i).nextPID = w.nextPID from rfl]
    have hnext : i < ({ w with nextPID := w.nextPID + 1 }.cloneForThread k w.nextPID childStack
      tls).2.procs.next := hi
    generalize { w with nextPID := w.nextPID + 1 }.cloneForThread k w.nextPID childStack tls = r
      at hnext
    obtain ⟨child, v⟩ := r
    obtain ⟨mems, hstore⟩ := v.storeWord_eq (w.proc i).space (flags &&& cloneParentSettid ≠ 0)
      parentTID w.nextPID
    obtain ⟨mems', hstore'⟩ := { v with mems := mems }.storeWord_eq child.space
      (flags &&& cloneChildSettid ≠ 0) childTID w.nextPID
    simp only [markResult, mark_storeWord, hstore, hstore']
    split
    · rfl
    split
    · rfl
    · have hadd := mark_addTask (m := m) (w := { v with mems := mems' }) hnext w.nextPID
        { child with parentPID := parentPID }
      exact congrArg (Prod.mk (some w.nextPID)) hadd

/-! ## Waiting for a child -/

theorem mark_findChild (requested : U32) :
    (w.mark m i).findChild ((w.mark m i).proc i) requested = w.findChild (w.proc i) requested := by
  have hchild (t : Task) :
      (w.mark m i).isChild ((w.mark m i).proc i) requested t = w.isChild (w.proc i) requested t := by
    unfold isChild
    rw [proc_mark (·.parentPID) (fun _ => rfl), proc_mark (·.pid) (fun _ => rfl),
      proc_mark (·.pid) (fun _ => rfl)]
  unfold findChild
  simp only [hchild]
  rfl

theorem mark_blockWait4 (b : WaitBlock) : (w.mark m i).blockWait4 i b = (w.blockWait4 i b).mark m i := by
  have hown := mark_own (m := m) (i := i) (w := w)
    (g := fun p => { p with kern := { p.kern with blockedWait := some b } }) fun _ => rfl
  have hwait := proc_mark (m := m) (i := i) (w := w) (·.kern.blockedWait) (fun _ => rfl) i
  unfold blockWait4
  dsimp only
  rw [hwait]
  split
  · rfl
  · exact hown

theorem mark_reap (pid : U32) (t : Task) (statusAddr : U32) :
    (w.mark m i).reap i pid t statusAddr = markResult m i (w.reap i pid t statusAddr) := by
  unfold reap
  dsimp only
  rw [proc_mark (·.exitCode) (fun _ => rfl), proc_mark (·.pid) (fun _ => rfl),
    proc_mark (·.space) (fun _ => rfl), mark_storeWord]
  obtain ⟨stored, v⟩ := w.storeWord (w.proc i).space true statusAddr
    (((w.proc t.process).exitCode &&& 0xff) <<< 8)
  cases stored with
  | false => rfl
  | true => rfl

theorem mark_wait4 (requested statusAddr options : U32) :
    (w.mark m i).wait4 i requested statusAddr options =
      markResult m i (w.wait4 i requested statusAddr options) := by
  unfold wait4
  rw [mark_findChild]
  cases w.findChild (w.proc i) requested with
  | none => rfl
  | some found =>
    obtain ⟨pid, t⟩ := found
    dsimp only
    rw [proc_mark (·.state) (fun _ => rfl)]
    split
    · split
      · rfl
      · exact congrArg (Prod.mk eagain) (mark_blockWait4 _)
    · exact mark_reap pid t statusAddr

theorem mark_tryResumeBlockedWait (b : WaitBlock) :
    (w.mark m i).tryResumeBlockedWait i b = markResult m i (w.tryResumeBlockedWait i b) := by
  unfold tryResumeBlockedWait
  rw [mark_unblockWait, mark_wait4]
  dsimp only [markResult]
  rw [proc_mark (·.kern.blockedWait) (fun _ => rfl)]
  split
  · rfl
  · rw [mark_unblockWait, mark_ret]

theorem mark_tryResumeBlocked (env : Env) :
    (w.mark m i).tryResumeBlocked env i = markResult m i (w.tryResumeBlocked env i) := by
  unfold tryResumeBlocked
  rw [proc_mark (·.kern.blockedWait) (fun _ => rfl), proc_mark (·.kern.blockedFutex) (fun _ => rfl),
    proc_mark (·.kern.blockedPipe) (fun _ => rfl)]
  cases (w.proc i).kern.blockedWait with
  | some b => exact mark_tryResumeBlockedWait b
  | none =>
    dsimp only
    split
    · rw [enter_mark, mark_tryResumeBlockedFutex, leave_mark, ← mark_leave]
      rfl
    cases (w.proc i).kern.blockedPipe with
    | none => rfl
    | some b =>
      dsimp only
      rw [mark_runKernel]
      rfl

/-! ## System calls -/

theorem mark_install (image : Image) : (w.mark m i).install i image = (w.install i image).mark m i := by
  unfold install
  rw [mark_onKernel (f := (·.closeCloexec)) missesMark_closeCloexec]
  generalize w.leave i (w.enter i).closeCloexec = v
  have hown := mark_own (m := m) (i := i) (w := { v with mems := v.mems.alloc image.mem })
    (g := fun p => p.withImage image v.mems.next) fun _ => rfl
  exact hown

theorem mark_nextTick : (w.mark m i).nextTick = w.nextTick.mark m i := rfl

theorem mark_replaceImage (env : Env) (path : List U8) (argv envp : List (List U8)) :
    (w.mark m i).replaceImage env i path argv envp =
      markResult m i (w.replaceImage env i path argv envp) := by
  unfold replaceImage
  rw [mark_nextTick, show (w.mark m i).objs = w.objs from rfl]
  cases env.host.resolve w.objs.tick path with
  | error e => rfl
  | ok hostPath =>
    dsimp only
    rw [mark_nextTick, show (w.nextTick.mark m i).objs = w.nextTick.objs from rfl]
    cases env.load w.nextTick.objs.tick hostPath (if argv = [] then [path] else argv) envp with
    | error e => rfl
    | ok image => exact congrArg (Prod.mk (Except.ok ())) (mark_install image)

theorem mark_execve (env : Env) (pathAddr argvAddr envpAddr : U32) :
    (w.mark m i).execve env i pathAddr argvAddr envpAddr =
      (w.execve env i pathAddr argvAddr envpAddr).mark m i := by
  unfold execve
  rw [enter_mark]
  simp only [mem_mark, guestPath_mark, mark_replaceImage, mark_ret, mark_countStep]
  split
  · dsimp only [markResult]
    rename_i name argv envp _ _ _
    cases (w.replaceImage env i ((w.enter i).guestPath name) argv envp).1 with
    | error e => exact (congrArg (countStep · i) (mark_ret _)).trans mark_countStep
    | ok _ => rfl
  · rfl

theorem mark_handle (env : Env) (hsvc : env.services.MissesSignals) (hi : i < w.procs.next) :
    (w.mark m i).handle env i = (w.handle env i).mark m i := by
  unfold handle
  rw [proc_mark (·.cpu.regs) (fun _ => rfl), proc_mark (·.pid) (fun _ => rfl)]
  split
  · rw [mark_fork hi]
    exact (congrArg (countStep · i) (mark_ret _)).trans mark_countStep
  · rw [mark_clone hi]
    exact (congrArg (countStep · i) (mark_ret _)).trans mark_countStep
  · rw [mark_wait4]
    exact (congrArg (countStep · i) (mark_ret _)).trans mark_countStep
  · exact mark_execve env _ _ _
  have hrequest := (decode (w.proc i).cpu.regs).commutes (m := m) env.host hsvc
  rw [mark_runKernel ((decode (w.proc i).cpu.regs).run env.host env.services)]
  obtain ⟨returned, v⟩ := w.runKernel i ((decode (w.proc i).cpu.regs).run env.host env.services)
  cases returned with
  | none => rfl
  | some _ => exact mark_countStep

/-! ## The step of a process -/

theorem mark_closeOnExit : (w.mark m i).closeOnExit i = (w.closeOnExit i).mark m i := by
  unfold closeOnExit
  rw [proc_mark (·.kern.thread) (fun _ => rfl)]
  split
  · rfl
  · exact mark_onKernel (f := (·.closeOnExit)) missesMark_closeOnExit

theorem mark_finish (startEIP : U32) :
    (w.mark m i).finish i startEIP = markResult m i (w.finish i startEIP) := by
  unfold finish
  dsimp only
  rw [mark_countProcess]
  generalize w.countProcess i = v
  rw [proc_mark (hasBlocked ·.kern) (fun _ => rfl), proc_mark (·.kern.exited) (fun _ => rfl),
    proc_mark (·.cpu.halted) (fun _ => rfl)]
  split
  · exact congrArg (Prod.mk Outcome.ok) (mark_setState _)
  split
  · rw [mark_closeOnExit]
    exact mark_exited
  split
  · exact mark_faulted _
  · rfl

theorem mark_putMachine (mach : Machine) :
    (w.mark m i).putMachine i mach = (w.putMachine i mach).mark m i := by
  have hown := mark_own (m := m) (i := i)
    (w := { w with mems := w.mems.set (w.proc i).space mach.mem })
    (g := fun p => { p with cpu := mach.toCPU }) fun _ => rfl
  unfold putMachine
  rw [proc_mark (·.space) (fun _ => rfl)]
  exact hown

theorem mark_runInstruction (env : Env) (hsvc : env.services.MissesSignals)
    (hi : i < w.procs.next) :
    (w.mark m i).runInstruction env i = markResult m i (w.runInstruction env i) := by
  have hmachine : (w.mark m i).machine i = w.machine i := by
    unfold machine
    rw [proc_mark (·.cpu) (fun _ => rfl), proc_mark (·.space) (fun _ => rfl)]
    rfl
  unfold runInstruction
  rw [hmachine, proc_mark (·.cpu.eip) (fun _ => rfl)]
  cases I386.step (w.machine i) with
  | error e mach =>
    dsimp only
    rw [mark_putMachine]
    exact mark_faulted _
  | ok trap mach =>
    cases trap with
    | none =>
      dsimp only
      rw [mark_putMachine]
      exact mark_finish _
    | int80 =>
      have hnext : i < (w.putMachine i mach).procs.next := hi
      dsimp only
      rw [mark_putMachine, mark_handle env hsvc hnext]
      generalize (w.putMachine i mach).handle env i = v
      rw [show (v.mark m i).hung = v.hung from rfl]
      split
      · rfl
      · exact mark_finish _

theorem mark_takeSignal (signal : Nat) (action : SignalAction) :
    (w.mark m i).takeSignal i signal action = markResult m i (w.takeSignal i signal action) := by
  unfold takeSignal
  split
  · split
    · rfl
    · exact mark_killed signal
  dsimp only
  rw [enter_mark, mark_deliverSignal, leave_mark, ← mark_leave]
  cases ((w.enter i).deliverSignal signal action).1 with
  | ok _ => rfl
  | error e => exact mark_faulted _

end World

end IshGo.Guest
