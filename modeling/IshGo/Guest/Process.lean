/-
# `IshGo.Guest.Process` — tasks, and what they share

The types of `internal/guest`, and from `process.go` the three ways in which a process
gets a new image: `CloneForFork`, `CloneForThread` and `replaceImage`.
-/
import IshGo.I386.Step
import IshGo.Kernel.Syscall
import IshGo.Lib.Heap

namespace IshGo.Guest

open I386 Kernel Lib

/-! ## State -/

inductive PState where
  | ready
  | running
  | exited
  | faulted
  | blocked
  deriving DecidableEq, Repr

/-- What a process can fault with.  The texts also give its registers. -/
inductive ProcFault where
  | signal (signal : Nat) (e : SignalError)
  | step (startEIP : U32) (e : Fault)
  | hlt (startEIP : U32)
  deriving DecidableEq, Repr

/-- `Process` with its kernel.  `space`, `table` and `actions` are numbers of cells. -/
structure Process where
  cpu : CPU
  space : Nat
  table : Nat
  actions : Nat
  kern : Kernel
  state : PState
  fault : Option ProcFault
  exitCode : U32
  steps : U64
  pid : U32
  parentPID : U32

structure Task where
  process : Nat
  reaped : Bool
  deriving DecidableEq, Repr

structure World where
  procs : Heap Process
  tasks : U32 → Option Task
  order : List U32
  nextPID : U32
  steps : U64
  mems : Heap Memory
  tables : Heap Files
  actions : Heap (U32 → SignalAction)
  objs : Objects
  futex : Futexes
  hung : Bool
  leaked : List Nat

structure Image where
  cpu : CPU
  mem : Memory
  brk : U32

/-- What the model does not say: the host, the calls left to `Services`, the loader. -/
structure Env where
  host : Host
  services : Services
  /-- `LoadFileWithEnvResolver` -/
  load : (tick : Nat) → (path : List U8) → (argv envp : List (List U8)) → Except IOErr Image

namespace World

def proc (w : World) (i : Nat) : Process := w.procs.cell i

def setProc (w : World) (i : Nat) (p : Process) : World := { w with procs := w.procs.set i p }

def files (w : World) (i : Nat) : Files := w.tables.cell (w.proc i).table

def enter (w : World) (i : Nat) : KState :=
  { cpu := (w.proc i).cpu, mem := w.mems.cell (w.proc i).space, kern := (w.proc i).kern
    files := w.files i, actions := w.actions.cell (w.proc i).actions
    objs := w.objs, futex := w.futex, calls := [] }

def leave (w : World) (i : Nat) (s : KState) : World :=
  { w with
    procs := w.procs.set i { w.proc i with cpu := s.cpu, kern := s.kern }
    mems := w.mems.set (w.proc i).space s.mem
    tables := w.tables.set (w.proc i).table s.files
    actions := w.actions.set (w.proc i).actions s.actions
    objs := s.objs
    futex := s.futex }

section Leave
variable {w : World} {i : Nat} {s : KState}

theorem proc_leave_self : (w.leave i s).proc i = { w.proc i with cpu := s.cpu, kern := s.kern } :=
  Heap.cell_set w.procs i _

theorem proc_leave_ne {j : Nat} (h : j ≠ i) : (w.leave i s).proc j = w.proc j :=
  Heap.cell_set_ne w.procs _ h

theorem enter_leave_self : (w.leave i s).enter i = { s with calls := [] } := by
  simp only [enter, files, proc_leave_self]
  simp only [leave, Heap.cell_set]

theorem leave_enter : w.leave i (w.enter i) = w := by
  have hproc : w.procs.set i (w.proc i) = w.procs := Heap.set_cell w.procs i
  have hfiles : w.tables.set (w.proc i).table (w.files i) = w.tables := Heap.set_cell w.tables _
  simp only [leave, enter, hproc, hfiles, Heap.set_cell]

end Leave

/-- A computation of the kernel of a process.  `none` if it never returns. -/
def runKernel {α : Type} (w : World) (i : Nat) (x : KernelM α) : Option α × World :=
  match x (w.enter i) with
  | .ok a s => (some a, w.leave i s)
  | .error _ s => (none, { w.leave i s with hung := true })

def ret (w : World) (i : Nat) (v : U32) : World := w.leave i ((w.enter i).ret v)

/-- `c.Steps++`, at the end of a system call. -/
def countStep (w : World) (i : Nat) : World :=
  let cpu := (w.proc i).cpu
  w.setProc i { w.proc i with cpu := { cpu with steps := cpu.steps + 1 } }

end World

/-! ## New processes -/

/-- The registers a child starts with; its kernel is attached. -/
def CPU.forChild (cpu : CPU) : CPU :=
  { cpu with
    regs := fun r => if r = EAX then 0 else cpu.regs r
    halted := false
    onSyscall := true }

def CPU.forThread (cpu : CPU) (childStack tls : U32) : CPU :=
  let cpu := CPU.forChild cpu
  { cpu with
    regs := fun r => if r = ESP ∧ childStack ≠ 0 then childStack else cpu.regs r
    gsBase := if tls ≠ 0 then tls else cpu.gsBase }

def Process.fresh (cpu : CPU) (space table actions : Nat) (kern : Kernel) (pid parentPID : U32) :
    Process :=
  { cpu := cpu, space := space, table := table, actions := actions, kern := kern, state := .ready
    fault := none, exitCode := 0, steps := 0, pid := pid, parentPID := parentPID }

def Process.withImage (p : Process) (image : Image) (space : Nat) : Process :=
  { p with
    cpu := { image.cpu with onSyscall := true }
    space := space
    kern := { p.kern with brk := image.brk, heapStart := image.brk, heapEnd := image.brk } }

namespace World

/-- A task for a process that is added to the heap.  `wire` tells its kernel of the
scheduler. -/
def addTask (w : World) (pid : U32) (p : Process) : World :=
  { w with
    procs := w.procs.alloc { p with kern := { p.kern with schedulerAware := true } }
    tasks := Function.update w.tasks pid (some ⟨w.procs.next, false⟩)
    order := w.order ++ [pid] }

/-- `CloneForFork`: the child has copies of everything. -/
def cloneForFork (w : World) (i : Nat) (pid : U32) : Process × World :=
  let p := w.proc i
  let r := (w.files i).cloneForChild w.objs
  (.fresh (CPU.forChild p.cpu) w.mems.next w.tables.next w.actions.next (p.kern.cloneForChild pid)
      pid p.pid,
    { w with
      mems := w.mems.alloc (w.mems.cell p.space)
      tables := w.tables.alloc r.1
      actions := w.actions.alloc (w.actions.cell p.actions)
      objs := r.2 })

/-- `CloneForThread`: a kernel made by `CloneForChild`, whose clones of the descriptors are
then replaced by the table of the parent. -/
def cloneForThread (w : World) (i : Nat) (pid childStack tls : U32) : Process × World :=
  let p := w.proc i
  let r := (w.files i).cloneForChild w.objs
  (.fresh (CPU.forThread p.cpu childStack tls) p.space p.table p.actions
      (p.kern.cloneForThread pid) pid p.parentPID,
    { w with objs := r.2, leaked := r.1.held ++ w.leaked })

/-- `CloseCloexec`, and the new image in the place of the old one. -/
def install (w : World) (i : Nat) (image : Image) : World :=
  let w := w.leave i (w.enter i).closeCloexec
  { w with
    procs := w.procs.set i ((w.proc i).withImage image w.mems.next)
    mems := w.mems.alloc image.mem }

def nextTick (w : World) : World := { w with objs := w.objs.nextTick }

def replaceImage (w : World) (env : Env) (i : Nat) (path : List U8) (argv envp : List (List U8)) :
    Except IOErr Unit × World :=
  match env.host.resolve w.objs.tick path with
  | .error e => (.error e, w.nextTick)
  | .ok hostPath =>
    let w := w.nextTick
    match env.load w.objs.tick hostPath (if argv = [] then [path] else argv) envp with
    | .error e => (.error e, w.nextTick)
    | .ok image => (.ok (), w.nextTick.install i image)

end World

/-! ## Exec -/

/-- The loop of `readVector`, with the turns left. -/
def readVectorLoop (mem : Memory) : Nat → U32 → Option (List (List U8))
  | 0, _ => none
  | n + 1, addr =>
    match mem.read32 addr with
    | .error _ => none
    | .ok ptr =>
      if ptr = 0 then some []
      else
        match mem.readCString ptr (1 <<< 20) with
        | none => none
        | some value => (readVectorLoop mem n (addr + 4)).map (value :: ·)

def readVector (mem : Memory) (addr : U32) (max : Nat) : Option (List (List U8)) :=
  if addr = 0 then some [] else readVectorLoop mem max addr

namespace World

/-- `execve`.  A new image has its own CPU, and the step is counted on the old one. -/
def execve (w : World) (env : Env) (i : Nat) (pathAddr argvAddr envpAddr : U32) : World :=
  let s := w.enter i
  match s.mem.readCString pathAddr 4096, readVector s.mem argvAddr 4096,
      readVector s.mem envpAddr 4096 with
  | some name, some argv, some envp =>
    let r := w.replaceImage env i (s.guestPath name) argv envp
    match r.1 with
    | .error e => (r.2.ret i (if e = .notExist then enoent else efault)).countStep i
    | .ok () => r.2
  | _, _, _ => (w.ret i efault).countStep i

end World

end IshGo.Guest
