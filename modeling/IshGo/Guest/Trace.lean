/-
# `IshGo.Guest.Trace` — the runs of the scheduler, seen from its tasks

A `Trace` is a run as far as the tasks are concerned: `fork`, `clone` and `wait4` in any
order, with anything in between that leaves the tasks and the PIDs alone (`Quiet`:
instructions, exits, faults, other system calls).  Its events are the PIDs taken by `fork` and
`clone`, and the results of the calls of `wait4`, first attempts and retries.
-/
import IshGo.Guest.Acts
import IshGo.Guest.Wait

namespace IshGo.Guest

open I386 Kernel Lib

variable {p : Process} {w' w'' : World}

/-! ## Traces -/

inductive Event where
  /-- The process `parent` has taken `pid` for a child. -/
  | issued (parent pid : U32)
  /-- A call of `wait4` by the process `caller` has returned. -/
  | waited (caller requested result : U32)
  deriving DecidableEq, Repr

namespace World

/-- Nothing has happened to the tasks, nor to the PIDs of the processes. -/
structure Quiet (w w' : World) : Prop where
  tasks : w'.tasks = w.tasks
  order : w'.order = w.order
  nextPID : w'.nextPID = w.nextPID
  next : w'.procs.next = w.procs.next
  pid : ∀ j, (w'.proc j).pid = (w.proc j).pid
  parentPID : ∀ j, (w'.proc j).parentPID = (w.proc j).parentPID

/-- The PID that `fork` or `clone` takes, if it gets as far. -/
def issue (w : World) (parentPID : U32) : List Event :=
  match w.runnable parentPID with
  | none => []
  | some _ => [.issued parentPID w.nextPID]

inductive Trace (w₀ : World) : List Event → World → Prop
  | refl : Trace w₀ [] w₀
  | quiet {es : List Event} {w w' : World} : Trace w₀ es w → Quiet w w' → Trace w₀ es w'
  | fork {es : List Event} {w : World} (parentPID : U32) : Trace w₀ es w →
      Trace w₀ (es ++ w.issue parentPID) (w.fork parentPID).2
  | clone {es : List Event} {w : World} (parentPID : U32) (caller : Nat)
      (flags childStack parentTID childTID tls : U32) : Trace w₀ es w →
      Trace w₀ (es ++ w.issue parentPID)
        (w.clone parentPID caller flags childStack parentTID childTID tls).2
  | wait4 {es : List Event} {w : World} (i : Nat) (requested statusAddr options : U32) :
      Trace w₀ es w →
      Trace w₀ (es ++ [.waited (w.proc i).pid requested (w.wait4 i requested statusAddr options).1])
        (w.wait4 i requested statusAddr options).2

/-! ## Quiet changes -/

section
variable {w w' w'' : World} {i : Nat}

theorem Quiet.refl (w : World) : Quiet w w := ⟨rfl, rfl, rfl, rfl, fun _ => rfl, fun _ => rfl⟩

theorem Quiet.trans (h : Quiet w w') (h' : Quiet w' w'') : Quiet w w'' where
  tasks := h'.tasks.trans h.tasks
  order := h'.order.trans h.order
  nextPID := h'.nextPID.trans h.nextPID
  next := h'.next.trans h.next
  pid j := (h'.pid j).trans (h.pid j)
  parentPID j := (h'.parentPID j).trans (h.parentPID j)

theorem Quiet.of_set (hpid : p.pid = (w.proc i).pid)
    (hparent : p.parentPID = (w.proc i).parentPID) (hprocs : w'.procs = w.procs.set i p)
    (htasks : w'.tasks = w.tasks) (horder : w'.order = w.order) (hnext : w'.nextPID = w.nextPID) :
    Quiet w w' where
  tasks := htasks
  order := horder
  nextPID := hnext
  next := by rw [hprocs, Heap.next_set]
  pid j := by
    rw [proc, hprocs]
    exact Heap.map_cell_set Process.pid w.procs hpid j
  parentPID j := by
    rw [proc, hprocs]
    exact Heap.map_cell_set Process.parentPID w.procs hparent j

theorem Quiet.setProc (hpid : p.pid = (w.proc i).pid)
    (hparent : p.parentPID = (w.proc i).parentPID) : Quiet w (w.setProc i p) :=
  .of_set hpid hparent rfl rfl rfl rfl

theorem Quiet.leave (w : World) (i : Nat) (s : KState) : Quiet w (w.leave i s) :=
  .of_set (w := w) (i := i) (p := { w.proc i with cpu := s.cpu, kern := s.kern }) rfl rfl rfl rfl rfl rfl

theorem Quiet.blockWait4 (w : World) (i : Nat) (b : WaitBlock) : Quiet w (w.blockWait4 i b) := by
  unfold World.blockWait4
  dsimp only
  split
  · exact .refl w
  · exact .setProc rfl rfl

end

/-! ## The turns of the scheduler -/

section
variable {w : World}

theorem Trace.trans {w₀ : World} {es es' : List Event} (h : Trace w₀ es w)
    (h' : Trace w es' w') : Trace w₀ (es ++ es') w' := by
  induction h' with
  | refl =>
    rw [List.append_nil]
    exact h
  | quiet _ hq ih => exact ih.quiet hq
  | fork parentPID _ ih =>
    rw [← List.append_assoc]
    exact ih.fork parentPID
  | clone parentPID caller flags childStack parentTID childTID tls _ ih =>
    rw [← List.append_assoc]
    exact ih.clone parentPID caller flags childStack parentTID childTID tls
  | wait4 i requested statusAddr options _ ih =>
    rw [← List.append_assoc]
    exact ih.wait4 i requested statusAddr options

def Leads (w w' : World) : Prop := ∃ es, Trace w es w'

theorem Quiet.leads (h : Quiet w w') : Leads w w' := ⟨[], Trace.refl.quiet h⟩

theorem Leads.trans (h : Leads w w') (h' : Leads w' w'') : Leads w w'' := by
  obtain ⟨es, ht⟩ := h
  obtain ⟨es', ht'⟩ := h'
  exact ⟨es ++ es', ht.trans ht'⟩

theorem Leads.quiet (h : Leads w w') (hq : Quiet w' w'') : Leads w w'' := h.trans hq.leads

theorem Quiet.setState (w : World) (i : Nat) (state : PState) : Quiet w (w.setState i state) :=
  .setProc rfl rfl

theorem Quiet.putMachine (w : World) (i : Nat) (m : Machine) : Quiet w (w.putMachine i m) :=
  .of_set (w := w) (i := i) (p := { w.proc i with cpu := m.toCPU }) rfl rfl rfl rfl rfl rfl

theorem Quiet.runKernel {α : Type} (w : World) (i : Nat) (x : KernelM α) : Quiet w (w.runKernel i x).2 := by
  unfold World.runKernel
  split
  · exact .leave w i _
  · rename_i s _
    have h := Quiet.leave w i s
    exact ⟨h.tasks, h.order, h.nextPID, h.next, h.pid, h.parentPID⟩

theorem Quiet.nextTick (w : World) : Quiet w w.nextTick :=
  ⟨rfl, rfl, rfl, rfl, fun _ => rfl, fun _ => rfl⟩

theorem Quiet.install (w : World) (i : Nat) (image : Image) : Quiet w (w.install i image) := by
  refine (Quiet.leave w i (w.enter i).closeCloexec).trans ?_
  exact .of_set (i := i) (p := Process.withImage _ image _) rfl rfl rfl rfl rfl rfl

theorem turns_leads (env : Env) (w : World) : Turns env (Leads w) fun _ => Leads w where
  enter h _ := h
  leave h := h
  count _ h := h.quiet ⟨rfl, rfl, rfl, rfl, fun _ => rfl, fun _ => rfl⟩
  own h hp := h.quiet (.setProc hp.pid hp.parentPID)
  machine m h := h.quiet (.putMachine _ _ m)
  request _ h _ := h.quiet (.runKernel ..)
  resumeFutex h := h.quiet (.leave ..)
  resumePipe _ h _ := h.quiet (.runKernel ..)
  take h := h.quiet (.leave ..)
  deliver _ _ h := h.quiet (.leave ..)
  closeOnExit h := h.quiet (.leave ..)
  fork pid h := h.trans ⟨_, Trace.refl.fork pid⟩
  clone _ _ _ _ _ _ _ h := h.trans ⟨_, Trace.refl.clone ..⟩
  wait4 requested statusAddr options h := h.trans ⟨_, Trace.refl.wait4 _ requested statusAddr options⟩
  tick h := h.quiet (.nextTick _)
  install image h := h.quiet (.install _ _ image)

theorem leads_step (w : World) (env : Env) : Leads w (w.step env).2 :=
  (turns_leads env w).step (Quiet.refl w).leads

theorem Reach.trace {env : Env} {C : World → Prop} (h : Reach env C w) :
    ∃ image tty objs es, Trace (World.start image tty objs) es w := by
  induction h with
  | start image tty _ => exact ⟨image, tty, _, [], .refl⟩
  | @step w _ _ ih =>
    obtain ⟨image, tty, objs, es, ht⟩ := ih
    obtain ⟨es', ht'⟩ := leads_step w env
    exact ⟨image, tty, objs, es ++ es', ht.trans ht'⟩
  | terminal id t _ ih =>
    obtain ⟨image, tty, objs, es, ht⟩ := ih
    exact ⟨image, tty, objs, es, ht.quiet ⟨rfl, rfl, rfl, rfl, fun _ => rfl, fun _ => rfl⟩⟩

end

end World

end IshGo.Guest
