/-
# `IshGo.Guest.Scheduler` — the scheduler and the step of a process

`internal/guest/scheduler.go`, and `Process.Step`.  A turn of the scheduler is in two
parts: `pick` goes through the tasks in order, tries to resume those that are blocked, and
stops at the first that can run; `stepProcess` then runs it.
-/
import IshGo.Guest.Process

namespace IshGo.Guest

open I386 Kernel Lib

namespace World

/-! ## Fork and clone -/

def runnable (w : World) (pid : U32) : Option Nat :=
  match w.tasks pid with
  | none => none
  | some t => if (w.proc t.process).state = .exited then none else some t.process

/-- `fork`; the PID of the child, or an error. -/
def fork (w : World) (parentPID : U32) : Option U32 × World :=
  match w.runnable parentPID with
  | none => (none, w)
  | some i =>
    let pid := w.nextPID
    let r := { w with nextPID := pid + 1 }.cloneForFork i pid
    (some pid, r.2.addTask pid r.1)

/-- A word written to a memory if that was asked for; whether it went well. -/
def storeWord (w : World) (space : Nat) (asked : Bool) (addr value : U32) : Bool × World :=
  if asked = false ∨ addr = 0 then (true, w)
  else
    match (w.mems.cell space).write32 addr value with
    | .error _ => (false, w)
    | .ok mem => (true, { w with mems := w.mems.set space mem })

/-- `clone`.  `caller` is the process whose CPU made the call. -/
def clone (w : World) (parentPID : U32) (caller : Nat) (flags childStack parentTID childTID tls : U32) :
    Option U32 × World :=
  match w.runnable parentPID with
  | none => (none, w)
  | some i =>
    let pid := w.nextPID
    let r := { w with nextPID := pid + 1 }.cloneForThread i pid childStack tls
    let child := { r.1 with parentPID := parentPID }
    let a := r.2.storeWord (w.proc caller).space (flags &&& cloneParentSettid ≠ 0) parentTID pid
    if a.1 = false then (none, a.2)
    else
      let b := a.2.storeWord child.space (flags &&& cloneChildSettid ≠ 0) childTID pid
      if b.1 = false then (none, b.2)
      else (some pid, b.2.addTask pid child)

/-! ## Wait -/

/-- The task is a child of `parent` that has not been reaped and that is waited for. -/
def isChild (w : World) (parent : Process) (requested : U32) (t : Task) : Bool :=
  t.reaped = false ∧ (w.proc t.process).parentPID = parent.pid ∧
    (0 < requested.toInt → requested = (w.proc t.process).pid)

def findChild (w : World) (parent : Process) (requested : U32) : Option (U32 × Task) :=
  w.order.findSome? fun pid =>
    match w.tasks pid with
    | none => none
    | some t => if w.isChild parent requested t then some (pid, t) else none

def blockWait4 (w : World) (i : Nat) (b : WaitBlock) : World :=
  let p := w.proc i
  if p.kern.blockedWait ≠ none then w
  else w.setProc i { p with kern := { p.kern with blockedWait := some b } }

def reap (w : World) (i : Nat) (pid : U32) (t : Task) (statusAddr : U32) : U32 × World :=
  let child := w.proc t.process
  let status := (child.exitCode &&& 0xff) <<< 8
  let r := w.storeWord (w.proc i).space true statusAddr status
  if r.1 = false then (efault, r.2)
  else (child.pid, { r.2 with tasks := Function.update r.2.tasks pid (some { t with reaped := true }) })

/-- `wait4` by the process `i`. -/
def wait4 (w : World) (i : Nat) (requested statusAddr options : U32) : U32 × World :=
  match w.findChild (w.proc i) requested with
  | none => (echild, w)
  | some (pid, t) =>
    if (w.proc t.process).state ≠ .exited then
      if options &&& 1 ≠ 0 then (0, w) else (eagain, w.blockWait4 i ⟨requested, statusAddr, options⟩)
    else w.reap i pid t statusAddr

/-! ## System calls -/

/-- What `fork` or `clone` gives, returned to the caller. -/
def retChild (r : Option U32 × World) (i : Nat) : World := r.2.ret i (r.1.getD efault)

/-- `Handle`, for the process `i`. -/
def handle (w : World) (env : Env) (i : Nat) : World :=
  match decode (w.proc i).cpu.regs with
  | .task .fork => (retChild (w.fork (w.proc i).pid) i).countStep i
  | .task (.clone flags childStack parentTID childTID tls) =>
    (retChild (w.clone (w.proc i).pid i flags childStack parentTID childTID tls) i).countStep i
  | .task (.wait4 pid statusAddr options) =>
    let r := w.wait4 i pid statusAddr options
    (r.2.ret i r.1).countStep i
  | .task (.execve pathAddr argvAddr envpAddr) => w.execve env i pathAddr argvAddr envpAddr
  | request =>
    let r := w.runKernel i (request.run env.host env.services)
    if r.1 = none then r.2 else r.2.countStep i

def unblockWait (w : World) (i : Nat) : World :=
  let p := w.proc i
  w.setProc i { p with kern := { p.kern with blockedWait := none } }

/-- `TryResumeBlocked`, for a task that waits for a child. -/
def tryResumeBlockedWait (w : World) (i : Nat) (b : WaitBlock) : Bool × World :=
  let r := (w.unblockWait i).wait4 i b.pid b.statusAddr b.options
  if r.1 = eagain ∧ (r.2.proc i).kern.blockedWait ≠ none then (false, r.2)
  else (true, (r.2.unblockWait i).ret i r.1)

/-- `TryResumeBlocked`; whether the task goes on. -/
def tryResumeBlocked (w : World) (env : Env) (i : Nat) : Bool × World :=
  match (w.proc i).kern.blockedWait with
  | some b => w.tryResumeBlockedWait i b
  | none =>
    if (w.proc i).kern.blockedFutex ≠ none then
      let r := (w.enter i).tryResumeBlockedFutex env.host
      (r.1, w.leave i r.2)
    else
      match (w.proc i).kern.blockedPipe with
      | none => (true, w)
      | some b =>
        let r := w.runKernel i (tryResumeBlockedPipe env.host b)
        (r.1.getD false, r.2)

/-! ## The step of a process -/

inductive Outcome where
  | ok
  | fault
  | hang
  | idle
  deriving DecidableEq, Repr

def setState (w : World) (i : Nat) (state : PState) : World :=
  w.setProc i { w.proc i with state := state }

def faulted (w : World) (i : Nat) (e : ProcFault) : Outcome × World :=
  (.fault, w.setProc i { w.proc i with state := .faulted, fault := some e })

def exited (w : World) (i : Nat) : Outcome × World :=
  (.ok, w.setProc i { w.proc i with state := .exited, exitCode := (w.proc i).kern.exitCode })

def ignored (signal : Nat) : Bool := signal = 17 ∨ signal = 23 ∨ signal = 28

def killed (w : World) (i : Nat) (signal : Nat) : Outcome × World :=
  let p := w.proc i
  (w.setProc i { p with
    kern := { p.kern with exited := true, exitCode := 128 + BitVec.ofNat 32 signal } }).exited i

def takeSignal (w : World) (i : Nat) (signal : Nat) (action : SignalAction) : Outcome × World :=
  if action.handler = 0 then
    if ignored signal then (.ok, w) else w.killed i signal
  else
    let r := (w.enter i).deliverSignal signal action
    let w := w.leave i r.2
    match r.1 with
    | .ok () => (.ok, w)
    | .error e => w.faulted i (.signal signal e)

/-- `p.Steps++` -/
def countProcess (w : World) (i : Nat) : World :=
  w.setProc i { w.proc i with steps := (w.proc i).steps + 1 }

def closeOnExit (w : World) (i : Nat) : World :=
  if (w.proc i).kern.thread then w else w.leave i (w.enter i).closeOnExit

def hasBlocked (k : Kernel) : Bool :=
  k.blockedFutex.isSome || k.blockedPipe.isSome || k.blockedWait.isSome

/-- `Step` after the instruction. -/
def finish (w : World) (i : Nat) (startEIP : U32) : Outcome × World :=
  let w := w.countProcess i
  if hasBlocked (w.proc i).kern then (.ok, w.setState i .blocked)
  else if (w.proc i).kern.exited then (w.closeOnExit i).exited i
  else if (w.proc i).cpu.halted then w.faulted i (.hlt startEIP)
  else (.ok, w)

def machine (w : World) (i : Nat) : Machine :=
  { (w.proc i).cpu with mem := w.mems.cell (w.proc i).space, log := [] }

def putMachine (w : World) (i : Nat) (m : Machine) : World :=
  { w with
    procs := w.procs.set i { w.proc i with cpu := m.toCPU }
    mems := w.mems.set (w.proc i).space m.mem }

def runInstruction (w : World) (env : Env) (i : Nat) : Outcome × World :=
  let startEIP := (w.proc i).cpu.eip
  match I386.step (w.machine i) with
  | .error e m => (w.putMachine i m).faulted i (.step startEIP e)
  | .ok .none m => (w.putMachine i m).finish i startEIP
  | .ok .int80 m =>
    let w := (w.putMachine i m).handle env i
    if w.hung then (.hang, w) else w.finish i startEIP

/-- The process is running, and the next signal for it has been taken. -/
def takeNext (w : World) (i : Nat) : Option (Nat × SignalAction) × World :=
  let w := w.setState i .running
  let r := (w.enter i).takePendingSignal
  (r.1, w.leave i r.2)

/-- `Step` of a process that is to run. -/
def runProcess (w : World) (env : Env) (i : Nat) : Outcome × World :=
  let r := w.takeNext i
  match r.1 with
  | some (signal, action) => r.2.takeSignal i signal action
  | none => r.2.runInstruction env i

/-- `Process.Step` -/
def stepProcess (w : World) (env : Env) (i : Nat) : Outcome × World :=
  match (w.proc i).state with
  | .exited => (.ok, w)
  | .faulted => (.fault, w)
  | .blocked =>
    let r := w.tryResumeBlocked env i
    if r.1 then r.2.runProcess env i else (.ok, r.2)
  | .ready | .running => w.runProcess env i

/-! ## The scheduler -/

/-- The loop of `Scheduler.Step` up to the first task that can run. -/
def pickLoop (env : Env) : List U32 → World → Option Nat × World
  | [], w => (none, w)
  | pid :: rest, w =>
    match w.tasks pid with
    | none => pickLoop env rest w
    | some t =>
      if t.reaped ∨ (w.proc t.process).state = .exited then pickLoop env rest w
      else if (w.proc t.process).state = .blocked then
        let r := w.tryResumeBlocked env t.process
        if r.1 then (some t.process, r.2.setState t.process .ready) else pickLoop env rest r.2
      else (some t.process, w)

def pick (w : World) (env : Env) : Option Nat × World := pickLoop env w.order w

/-- `Scheduler.Step` -/
def step (w : World) (env : Env) : Outcome × World :=
  if w.hung then (.hang, w)
  else
    let r := w.pick env
    match r.1 with
    | none => (.idle, r.2)
    | some i =>
      let r := r.2.stepProcess env i
      match r.1 with
      | .ok => (.ok, { r.2 with steps := r.2.steps + 1 })
      | outcome => (outcome, r.2)

/-! ## Runs -/

/-- A process made by `LoadWithRuntime`, given to `NewScheduler`. -/
def start (image : Image) (tty : Option Nat) (objs : Objects) : World :=
  let kern := { Kernel.new true tty with
    brk := image.brk, heapStart := image.brk, heapEnd := image.brk, schedulerAware := true }
  { procs := .single (.fresh { image.cpu with onSyscall := true } 0 0 0 kern 1 0)
    tasks := fun pid => if pid = 1 then some ⟨0, false⟩ else none
    order := [1]
    nextPID := 2
    steps := 0
    mems := .single image.mem
    tables := .single Files.new
    actions := .single fun _ => ⟨0, 0, 0, 0⟩
    objs := objs
    futex := Futexes.new
    hung := false
    leaked := [] }

def setTerminal (w : World) (id : Nat) (t : Terminal) : World :=
  { w with objs := w.objs.setTerminal id t }

inductive Reach (env : Env) (C : World → Prop) : World → Prop
  | start (image : Image) (tty : Option Nat) {objs : Objects} : objs.nextPipe = 0 →
      Reach env C (World.start image tty objs)
  | step {w : World} : Reach env C w → C w → Reach env C (w.step env).2
  | terminal {w : World} (id : Nat) (t : Terminal) : Reach env C w → Reach env C (w.setTerminal id t)

end World

end IshGo.Guest
