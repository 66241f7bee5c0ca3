/-
# `IshGo.Guest.Acts` — what a turn of the scheduler consists of

A turn resumes some tasks and steps one; each of these is a handful of small changes to the
world, of which there are few kinds (`Act`).  `acts_step` takes a turn apart once and for all:
what every act keeps, or records, every run of the scheduler keeps or records (`Reach.of_act`).
-/
import IshGo.Guest.Invariant
import Mathlib.Logic.Relation

namespace IshGo.Guest

open I386 Kernel Lib

variable {env : Env} {w w' : World} {i : Nat}

/-- What a process points to, its PIDs, and most of its kernel are the same. -/
structure Process.Same (p p' : Process) : Prop where
  space : p'.space = p.space
  table : p'.table = p.table
  actions : p'.actions = p.actions
  pid : p'.pid = p.pid
  parentPID : p'.parentPID = p.parentPID
  kern : ∃ b e c, p'.kern = { p.kern with blockedWait := b, exited := e, exitCode := c }

theorem Process.Same.of_kern {p p' : Process} (hspace : p'.space = p.space)
    (htable : p'.table = p.table) (hactions : p'.actions = p.actions) (hpid : p'.pid = p.pid)
    (hparent : p'.parentPID = p.parentPID) (hkern : p'.kern = p.kern) : p.Same p' :=
  ⟨hspace, htable, hactions, hpid, hparent, _, _, _, hkern⟩

namespace World

def Valid (w : World) : Prop := ∀ pid t, w.tasks pid = some t → t.process < w.procs.next

inductive Act (env : Env) : World → World → Prop
  | own {w : World} {i : Nat} {p : Process} : i < w.procs.next → (w.proc i).Same p →
      Act env w (w.setProc i p)
  | machine {w : World} {i : Nat} (m : Machine) : i < w.procs.next → Act env w (w.putMachine i m)
  | request {w : World} {i : Nat} (r : Request) : i < w.procs.next → (∀ c, r ≠ .task c) →
      Act env w (w.runKernel i (r.run env.host env.services)).2
  | resumeFutex {w : World} {i : Nat} : i < w.procs.next →
      Act env w (w.leave i ((w.enter i).tryResumeBlockedFutex env.host).2)
  | resumePipe {w : World} {i : Nat} (b : PipeBlock) : i < w.procs.next →
      (w.proc i).kern.blockedPipe = some b →
      Act env w (w.runKernel i (tryResumeBlockedPipe env.host b)).2
  | take {w : World} {i : Nat} : i < w.procs.next →
      Act env w (w.leave i (w.enter i).takePendingSignal.2)
  | deliver {w : World} {i : Nat} (signal : Nat) (action : SignalAction) : i < w.procs.next →
      Act env w (w.leave i ((w.enter i).deliverSignal signal action).2)
  | closeOnExit {w : World} {i : Nat} : i < w.procs.next →
      Act env w (w.leave i (w.enter i).closeOnExit)
  | fork {w : World} (pid : U32) : Act env w (w.fork pid).2
  | clone {w : World} (pid : U32) (caller : Nat) (flags childStack parentTID childTID tls : U32) :
      Act env w (w.clone pid caller flags childStack parentTID childTID tls).2
  | store {w : World} (space : Nat) (asked : Bool) (addr value : U32) :
      Act env w (w.storeWord space asked addr value).2
  | reap {w : World} {pid : U32} {t : Task} : w.tasks pid = some t →
      Act env w { w with tasks := Function.update w.tasks pid (some { t with reaped := true }) }
  | tick {w : World} : Act env w w.nextTick
  | install {w : World} {i : Nat} (image : Image) : i < w.procs.next →
      Act env w (w.install i image)
  | count {w : World} (steps : U64) : Act env w { w with steps := steps }

abbrev Acts (env : Env) : World → World → Prop := Relation.ReflTransGen (Act env)

/-! ## Processes stay -/

theorem runKernel_eq {α : Type} (w : World) (i : Nat) (x : KernelM α) :
    ∃ s hung, (w.runKernel i x).2 = { w.leave i s with hung := hung } ∧ s = after x (w.enter i) := by
  unfold runKernel after
  split
  · rename_i a s hx
    exact ⟨s, w.hung, rfl, by rw [hx]⟩
  · rename_i e s hx
    exact ⟨s, true, rfl, by rw [hx]⟩

theorem Valid.addTask (h : w.Valid) (pid : U32) (p : Process) : (w.addTask pid p).Valid := by
  intro pid' t ht
  show t.process < w.procs.next + 1
  by_cases hpid : pid' = pid
  · subst hpid
    simp only [World.addTask, Function.update_self, Option.some.injEq] at ht
    rw [← ht]
    exact Nat.lt_succ_self _
  · simp only [World.addTask, Function.update_of_ne hpid] at ht
    exact Nat.lt_succ_of_lt (h pid' t ht)

theorem fork_cases (w : World) (pid : U32) :
    (w.fork pid).2 = w ∨ ∃ i, w.runnable pid = some i ∧
      (w.fork pid).2 =
        (({ w with nextPID := w.nextPID + 1 }.cloneForFork i w.nextPID).2.addTask w.nextPID
          ({ w with nextPID := w.nextPID + 1 }.cloneForFork i w.nextPID).1) := by
  unfold World.fork
  cases w.runnable pid with
  | none => exact Or.inl rfl
  | some i => exact Or.inr ⟨i, rfl, rfl⟩

theorem clone_cases (w : World) (pid : U32) (caller : Nat)
    (flags childStack parentTID childTID tls : U32) :
    (∃ mems objs leaked nextPID, w.clone pid caller flags childStack parentTID childTID tls =
      (none, { w with mems := mems, objs := objs, leaked := leaked, nextPID := nextPID })) ∨
    ∃ i mems, w.runnable pid = some i ∧
      w.clone pid caller flags childStack parentTID childTID tls =
        (some w.nextPID,
          { ({ w with nextPID := w.nextPID + 1 }.cloneForThread i w.nextPID childStack tls).2 with
            mems := mems }.addTask w.nextPID
            { ({ w with nextPID := w.nextPID + 1 }.cloneForThread i w.nextPID childStack tls).1 with
              parentPID := pid }) := by
  unfold World.clone
  cases w.runnable pid with
  | none => exact Or.inl ⟨w.mems, w.objs, w.leaked, w.nextPID, rfl⟩
  | some i =>
    dsimp only
    generalize hr : { w with nextPID := w.nextPID + 1 }.cloneForThread i w.nextPID childStack tls = r
    obtain ⟨mems₁, h₁⟩ := r.2.storeWord_eq (w.proc caller).space
      (flags &&& cloneParentSettid ≠ 0) parentTID w.nextPID
    obtain ⟨mems₂, h₂⟩ := { r.2 with mems := mems₁ }.storeWord_eq r.1.space
      (flags &&& cloneChildSettid ≠ 0) childTID w.nextPID
    rw [h₁, h₂]
    subst hr
    split
    · exact Or.inl ⟨mems₁, _, _, _, rfl⟩
    · split
      · exact Or.inl ⟨mems₂, _, _, _, rfl⟩
      · exact Or.inr ⟨i, mems₂, rfl, rfl⟩

theorem Act.valid (h : Act env w w') (hv : w.Valid) : w'.Valid ∧ w.procs.next ≤ w'.procs.next := by
  cases h with
  | own | machine => exact ⟨hv, Nat.le_refl _⟩
  | @request i r _ _ =>
    obtain ⟨s, hung, heq, _⟩ := w.runKernel_eq i (r.run env.host env.services)
    rw [heq]
    exact ⟨hv, Nat.le_refl _⟩
  | resumeFutex _ => exact ⟨hv, Nat.le_refl _⟩
  | @resumePipe i b _ _ =>
    obtain ⟨s, hung, heq, _⟩ := w.runKernel_eq i (tryResumeBlockedPipe env.host b)
    rw [heq]
    exact ⟨hv, Nat.le_refl _⟩
  | take | deliver | closeOnExit => exact ⟨hv, Nat.le_refl _⟩
  | fork pid =>
    rcases w.fork_cases pid with heq | ⟨i, _, heq⟩
    · rw [heq]
      exact ⟨hv, Nat.le_refl _⟩
    · rw [heq]
      exact ⟨Valid.addTask hv _ _, Nat.le_succ _⟩
  | clone pid caller flags childStack parentTID childTID tls =>
    rcases w.clone_cases pid caller flags childStack parentTID childTID tls with
      ⟨_, _, _, _, heq⟩ | ⟨_, _, _, heq⟩
    · rw [heq]
      exact ⟨hv, Nat.le_refl _⟩
    · rw [heq]
      exact ⟨Valid.addTask hv _ _, Nat.le_succ _⟩
  | store space asked addr value =>
    obtain ⟨mems, heq⟩ := w.storeWord_eq space asked addr value
    rw [heq]
    exact ⟨hv, Nat.le_refl _⟩
  | @reap pid t ht =>
    refine ⟨?_, Nat.le_refl _⟩
    intro pid' t' ht'
    by_cases hpid : pid' = pid
    · subst hpid
      simp only [Function.update_self, Option.some.injEq] at ht'
      rw [← ht']
      exact hv pid' t ht
    · simp only [Function.update_of_ne hpid] at ht'
      exact hv pid' t' ht'
  | tick | install | count => exact ⟨hv, Nat.le_refl _⟩

/-! ## Taking a turn apart -/

/-- What the parts of a turn keep: `P i` in the turn of process `i`, `Q` before and after it. -/
structure Turns (env : Env) (Q : World → Prop) (P : Nat → World → Prop) : Prop where
  enter : ∀ {w pid t}, Q w → w.tasks pid = some t → P t.process w
  leave : ∀ {i w}, P i w → Q w
  count : ∀ {w} steps, Q w → Q { w with steps := steps }
  own : ∀ {i w p}, P i w → (w.proc i).Same p → P i (w.setProc i p)
  machine : ∀ {i w} m, P i w → P i (w.putMachine i m)
  request : ∀ {i w} (r : Request), P i w → (∀ c, r ≠ .task c) →
    P i (w.runKernel i (r.run env.host env.services)).2
  resumeFutex : ∀ {i w}, P i w → P i (w.leave i ((w.enter i).tryResumeBlockedFutex env.host).2)
  resumePipe : ∀ {i w} b, P i w → (w.proc i).kern.blockedPipe = some b →
    P i (w.runKernel i (tryResumeBlockedPipe env.host b)).2
  take : ∀ {i w}, P i w → P i (w.leave i (w.enter i).takePendingSignal.2)
  deliver : ∀ {i w} signal action, P i w → P i (w.leave i ((w.enter i).deliverSignal signal action).2)
  closeOnExit : ∀ {i w}, P i w → P i (w.leave i (w.enter i).closeOnExit)
  fork : ∀ {i w} pid, P i w → P i (w.fork pid).2
  clone : ∀ {i w} pid caller flags childStack parentTID childTID tls, P i w →
    P i (w.clone pid caller flags childStack parentTID childTID tls).2
  wait4 : ∀ {i w} requested statusAddr options, P i w → P i (w.wait4 i requested statusAddr options).2
  tick : ∀ {i w}, P i w → P i w.nextTick
  install : ∀ {i w} image, P i w → P i (w.install i image)

theorem ret_eq (w : World) (i : Nat) (v : U32) :
    w.ret i v = w.setProc i { w.proc i with cpu := ((w.enter i).ret v).cpu } := by
  have hmems : w.mems.set (w.proc i).space (w.mems.cell (w.proc i).space) = w.mems :=
    Heap.set_cell ..
  have htables : w.tables.set (w.proc i).table (w.tables.cell (w.proc i).table) = w.tables :=
    Heap.set_cell ..
  have hactions : w.actions.set (w.proc i).actions (w.actions.cell (w.proc i).actions) = w.actions :=
    Heap.set_cell ..
  show { w with
    procs := _, mems := w.mems.set (w.proc i).space (w.mems.cell (w.proc i).space)
    tables := w.tables.set (w.proc i).table (w.tables.cell (w.proc i).table)
    actions := w.actions.set (w.proc i).actions (w.actions.cell (w.proc i).actions) } = _
  rw [hmems, htables, hactions]
  rfl

namespace Turns

variable {env : Env} {Q : World → Prop} {P : Nat → World → Prop} (T : Turns env Q P)
include T

section At
variable {w : World} {i : Nat} (h : P i w)
include h

theorem ret (v : U32) : P i (w.ret i v) := by
  rw [ret_eq]
  exact T.own h (.of_kern rfl rfl rfl rfl rfl rfl)

theorem countStep : P i (w.countStep i) := T.own h (.of_kern rfl rfl rfl rfl rfl rfl)

theorem setState (state : PState) : P i (w.setState i state) := T.own h (.of_kern rfl rfl rfl rfl rfl rfl)

theorem faulted (e : ProcFault) : P i (w.faulted i e).2 := T.own h (.of_kern rfl rfl rfl rfl rfl rfl)

theorem exited : P i (w.exited i).2 := T.own h (.of_kern rfl rfl rfl rfl rfl rfl)

theorem killed (signal : Nat) : P i (w.killed i signal).2 := by
  refine T.exited ?_
  exact T.own h ⟨rfl, rfl, rfl, rfl, rfl, _, _, _, rfl⟩

theorem unblockWait : P i (w.unblockWait i) := T.own h ⟨rfl, rfl, rfl, rfl, rfl, _, _, _, rfl⟩

theorem execve (pathAddr argvAddr envpAddr : U32) : P i (w.execve env i pathAddr argvAddr envpAddr) := by
  unfold World.execve
  dsimp only
  split
  · rename_i name argv envp _ _ _
    have htick := T.tick h
    unfold World.replaceImage
    cases env.host.resolve w.objs.tick ((w.enter i).guestPath name) with
    | error e => exact T.countStep (T.ret htick _)
    | ok hostPath =>
      dsimp only
      have htick' := T.tick htick
      cases env.load w.nextTick.objs.tick hostPath
          (if argv = [] then [(w.enter i).guestPath name] else argv) envp with
      | error e => exact T.countStep (T.ret htick' _)
      | ok image => exact T.install image htick'
  · exact T.countStep (T.ret h efault)

theorem handle : P i (w.handle env i) := by
  unfold World.handle
  split
  · exact T.countStep (T.ret (T.fork _ h) _)
  · exact T.countStep (T.ret (T.clone _ _ _ _ _ _ _ h) _)
  · exact T.countStep (T.ret (T.wait4 _ _ _ h) _)
  · exact T.execve h _ _ _
  rename_i hfork hclone hwait hexec
  have htask : ∀ c, decode (w.proc i).cpu.regs ≠ .task c := by
    intro c hc
    cases c with
    | fork => exact hfork hc
    | clone flags childStack parentTID childTID tls => exact hclone _ _ _ _ _ hc
    | wait4 pid statusAddr options => exact hwait _ _ _ hc
    | execve pathAddr argvAddr envpAddr => exact hexec _ _ _ hc
  have hrun := T.request _ h htask
  dsimp only
  split
  · exact hrun
  · exact T.countStep hrun

theorem tryResumeBlocked : P i (w.tryResumeBlocked env i).2 := by
  unfold World.tryResumeBlocked
  split
  · rename_i b _
    have hwait := T.wait4 b.pid b.statusAddr b.options (T.unblockWait h)
    unfold World.tryResumeBlockedWait
    dsimp only
    split
    · exact hwait
    · exact T.ret (T.unblockWait hwait) _
  · split
    · exact T.resumeFutex h
    split
    · exact h
    · rename_i b hb
      exact T.resumePipe b h hb

theorem finish (startEIP : U32) : P i (w.finish i startEIP).2 := by
  have hcount : P i (w.countProcess i) := T.own h (.of_kern rfl rfl rfl rfl rfl rfl)
  unfold World.finish
  dsimp only
  split
  · exact T.setState hcount _
  split
  · unfold World.closeOnExit
    split
    · exact T.exited hcount
    · exact T.exited (T.closeOnExit hcount)
  · split
    · exact T.faulted hcount _
    · exact hcount

theorem runProcess : P i (w.runProcess env i).2 := by
  have htake : P i (w.takeNext i).2 := T.take (T.setState h .running)
  unfold World.runProcess
  dsimp only
  split
  · unfold World.takeSignal
    split
    · split
      · exact htake
      · exact T.killed htake _
    dsimp only
    have hdeliver := fun signal action => T.deliver signal action htake
    split
    · exact hdeliver _ _
    · exact T.faulted (hdeliver _ _) _
  unfold World.runInstruction
  dsimp only
  split
  · exact T.faulted (T.machine _ htake) _
  · exact T.finish (T.machine _ htake) _
  rename_i m _
  have hhandle := T.handle (T.machine m htake)
  split
  · exact hhandle
  · exact T.finish hhandle _

theorem stepProcess : P i (w.stepProcess env i).2 := by
  unfold World.stepProcess
  split
  · exact h
  · exact h
  · dsimp only
    split
    · exact T.runProcess (T.tryResumeBlocked h)
    · exact T.tryResumeBlocked h
  · exact T.runProcess h
  · exact T.runProcess h

end At

theorem pickLoop (pids : List U32) (h : Q w) :
    Q (pickLoop env pids w).2 ∧ ∀ i, (World.pickLoop env pids w).1 = some i → P i (World.pickLoop env pids w).2 := by
  induction pids generalizing w with
  | nil => exact ⟨h, fun i h => nomatch h⟩
  | cons pid rest ih =>
    unfold World.pickLoop
    split
    · exact ih h
    rename_i t ht
    have hstart := T.enter h ht
    split
    · exact ih h
    split
    · have hresume := T.tryResumeBlocked hstart
      dsimp only
      split
      · refine ⟨T.leave (T.setState hresume .ready), fun i hi => ?_⟩
        cases hi
        exact T.setState hresume .ready
      · exact ih (T.leave hresume)
    · refine ⟨h, fun i hi => ?_⟩
      cases hi
      exact hstart

theorem step (h : Q w) : Q (w.step env).2 := by
  unfold World.step
  split
  · exact h
  obtain ⟨hpick, hat⟩ := T.pickLoop w.order h
  dsimp only
  split
  · exact hpick
  rename_i i hi
  have hstep := T.stepProcess (hat i hi)
  split
  · exact T.count _ (T.leave hstep)
  · exact T.leave hstep

end Turns

/-! ## A turn consists of acts -/

/-- Acts, from a world whose tasks have processes, that leave process `i` where it is. -/
structure ActsAt (env : Env) (i : Nat) (w w' : World) : Prop where
  acts : Acts env w w'
  valid : w'.Valid
  lt : i < w'.procs.next

section At
variable {w'' : World}

theorem ActsAt.act (h : ActsAt env i w w') (hact : Act env w' w'') : ActsAt env i w w'' := by
  obtain ⟨hv, hle⟩ := hact.valid h.valid
  exact ⟨h.acts.tail hact, hv, h.lt.trans_le hle⟩

theorem ActsAt.wait4 (h : ActsAt env i w w') (requested statusAddr options : U32) :
    ActsAt env i w (w'.wait4 i requested statusAddr options).2 := by
  unfold World.wait4
  cases hf : w'.findChild (w'.proc i) requested with
  | none => exact h
  | some found =>
    obtain ⟨pid, t⟩ := found
    dsimp only
    split
    · split
      · exact h
      unfold World.blockWait4
      dsimp only
      split
      · exact h
      · exact h.act (.own h.lt ⟨rfl, rfl, rfl, rfl, rfl, _, _, _, rfl⟩)
    unfold World.reap
    dsimp only
    have hstore := h.act (.store (w'.proc i).space true statusAddr
      (((w'.proc t.process).exitCode &&& 0xff) <<< 8))
    split
    · exact hstore
    obtain ⟨mems, heq⟩ := w'.storeWord_eq (w'.proc i).space true statusAddr
      (((w'.proc t.process).exitCode &&& 0xff) <<< 8)
    refine hstore.act (.reap ?_)
    rw [heq]
    exact findChild_task hf

theorem turns_acts (env : Env) (w : World) : Turns env (fun w' => Acts env w w' ∧ w'.Valid) (ActsAt env · w) where
  enter h ht := ⟨h.1, h.2, h.2 _ _ ht⟩
  leave h := ⟨h.acts, h.valid⟩
  count steps h := ⟨h.1.tail (.count steps), h.2⟩
  own h hp := h.act (.own h.lt hp)
  machine m h := h.act (.machine m h.lt)
  request r h hr := h.act (.request r h.lt hr)
  resumeFutex h := h.act (.resumeFutex h.lt)
  resumePipe b h hb := h.act (.resumePipe b h.lt hb)
  take h := h.act (.take h.lt)
  deliver signal action h := h.act (.deliver signal action h.lt)
  closeOnExit h := h.act (.closeOnExit h.lt)
  fork pid h := h.act (.fork pid)
  clone _ _ _ _ _ _ _ h := h.act (.clone ..)
  wait4 requested statusAddr options h := h.wait4 requested statusAddr options
  tick h := h.act .tick
  install image h := h.act (.install image h.lt)

end At

theorem acts_step (env : Env) (hv : w.Valid) : Acts env w (w.step env).2 :=
  ((turns_acts env w).step ⟨.refl, hv⟩).1

theorem start_valid (image : Image) (tty : Option Nat) (objs : Objects) :
    (World.start image tty objs).Valid := by
  intro pid t ht
  unfold World.start at ht
  dsimp only at ht
  split at ht
  · cases ht
    exact Nat.zero_lt_one
  · cases ht

theorem Reach.of_act {C P : World → Prop} (h : Reach env C w)
    (hstart : ∀ image tty objs, P (World.start image tty objs))
    (hact : ∀ w w', w.Valid → P w → Act env w w' → P w')
    (hterminal : ∀ w id t, P w → P (w.setTerminal id t)) : w.Valid ∧ P w := by
  induction h with
  | start image tty _ => exact ⟨start_valid image tty _, hstart image tty _⟩
  | @step w _ _ ih =>
    obtain ⟨hv, hP⟩ := ih
    have hacts : ∀ {w'}, Acts env w w' → w'.Valid ∧ P w' := by
      intro w' hacts
      induction hacts with
      | refl => exact ⟨hv, hP⟩
      | tail _ hlast ih => exact ⟨(hlast.valid ih.1).1, hact _ _ ih.1 ih.2 hlast⟩
    exact hacts (acts_step env hv)
  | terminal id t _ ih => exact ⟨ih.1, hterminal _ id t ih.2⟩

end World

end IshGo.Guest
