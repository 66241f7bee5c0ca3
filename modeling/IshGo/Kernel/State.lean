/-
# `IshGo.Kernel.State` — the kernel of one task

`Kernel` of `internal/kernel/syscall.go`, seen from inside a system call: the CPU and
the memory of the caller, its kernel, and what the kernel points to.  Threads share
descriptor tables, signal actions and memory; the sharing is the business of
`IshGo.Guest`, and here they are held by value.
-/
import IshGo.I386.Cpu
import IshGo.Kernel.Handles
import IshGo.Kernel.MemoryOps
import Mathlib.Data.List.AList

set_option linter.dupNamespace false

namespace IshGo.Kernel

open I386

/-! ## Errors -/

def enoent : U32 := -2
def eintr : U32 := -4
def ebadf : U32 := -9
def eagain : U32 := -11
def efault : U32 := -14
def epipe : U32 := -32
def enosys : U32 := -38
def etimedout : U32 := -110
def esrch : U32 := -3
def echild : U32 := -10

/-! ## State -/

structure Files where
  fds : AList fun _ : Int => Handle
  closedFDs : Int → Bool
  fdCloexec : AList fun _ : Int => Bool

def Files.new : Files := { fds := ∅, closedFDs := fun _ => false, fdCloexec := ∅ }

structure SignalAction where
  handler : U32
  flags : U32
  restorer : U32
  mask : U64
  deriving DecidableEq, Repr

structure FutexBlock where
  uaddr : U32
  waiter : Nat
  deadline : Option Nat
  deriving DecidableEq, Repr

structure PipeBlock where
  fd : Int
  addr : U32
  count : U32
  write : Bool
  data : List U8
  deriving DecidableEq, Repr

structure WaitBlock where
  pid : U32
  statusAddr : U32
  options : U32
  deriving DecidableEq, Repr

/-- The fields of `Kernel` that a task has for itself.  `fs` says whether there is a
file system, `tty` which terminal there is. -/
structure Kernel where
  fs : Bool
  tty : Option Nat
  pid : U32
  thread : Bool
  brk : U32
  heapStart : U32
  heapEnd : U32
  cwd : List U8
  exited : Bool
  exitCode : U32
  tidAddress : U32
  signalMask : U64
  pendingSignals : U64
  schedulerAware : Bool
  blockedFutex : Option FutexBlock
  blockedPipe : Option PipeBlock
  blockedWait : Option WaitBlock
  deriving DecidableEq, Repr

def Kernel.new (fs : Bool) (tty : Option Nat) : Kernel :=
  { fs := fs, tty := tty, pid := 1, thread := false, brk := 0, heapStart := 0, heapEnd := 0
    cwd := [47], exited := false, exitCode := 0, tidAddress := 0
    signalMask := 0, pendingSignals := 0, schedulerAware := false
    blockedFutex := none, blockedPipe := none, blockedWait := none }

/-- A `Read` or `Write` on a handle, with the size of the buffer or the bytes, and
with what came of it; `none` if it did not return. -/
inductive HandleCall where
  | read (h : Handle) (len : Nat) (result : Option Transfer)
  | write (h : Handle) (data : List U8) (result : Option Transfer)
  deriving DecidableEq, Repr

/-- The waiters of each futex, as the numbers of their channels, and which of the
channels have been closed. -/
structure Futexes where
  waiters : U32 → List Nat
  closed : Nat → Bool
  next : Nat

def Futexes.new : Futexes := { waiters := fun _ => [], closed := fun _ => false, next := 0 }

structure KState where
  cpu : CPU
  mem : Memory
  kern : Kernel
  files : Files
  actions : U32 → SignalAction
  objs : Objects
  futex : Futexes
  calls : List HandleCall

/-- A new kernel, for a CPU with its memory, among the objects there are. -/
def KState.new (fs : Bool) (tty : Option Nat) (cpu : CPU) (mem : Memory) (objs : Objects) : KState :=
  { cpu := cpu, mem := mem, kern := Kernel.new fs tty, files := Files.new
    actions := fun _ => ⟨0, 0, 0, 0⟩, objs := objs, futex := Futexes.new, calls := [] }

abbrev KernelM := EStateM Hang KState

/-! ## Small operations -/

/-- Register `r` set. -/
def KState.setReg (s : KState) (r : Reg) (v : U32) : KState :=
  { s with cpu := { s.cpu with regs := fun i => if i = r then v else s.cpu.regs i } }

/-- `ret`: the value that the system call returns. -/
def KState.ret (s : KState) (v : U32) : KState := s.setReg EAX v

def onObjs {α : Type} (x : ObjM α) : KernelM α := fun s =>
  match x s.objs with
  | .ok a o => .ok a { s with objs := o }
  | .error e o => .error e { s with objs := o }

def onHandle (log : Option Transfer → HandleCall) (x : ObjM Transfer) : KernelM Transfer := fun s =>
  match x s.objs with
  | .ok r o => .ok r { s with objs := o, calls := log (some r) :: s.calls }
  | .error e o => .error e { s with objs := o, calls := log none :: s.calls }

def ret (v : U32) : KernelM Unit := fun s => .ok () (s.ret v)

/-- `Mem.WriteBytes`; whether it succeeded. -/
def memWriteBytes (addr : U32) (value : List U8) : KernelM Bool := fun s =>
  match s.mem.writeBytes addr value with
  | .ok mem => .ok true { s with mem := mem }
  | .error _ => .ok false s

/-- `Mem.Write32`; whether it succeeded. -/
def memWrite32 (addr value : U32) : KernelM Bool := memWriteBytes addr (leBytes value 4)

def capCount (count : U32) : Nat := if count > 1 <<< 20 then 1 <<< 20 else count.toNat

def Kernel.queueSignal (k : Kernel) (signal : Nat) : Kernel :=
  if signal = 0 ∨ signal > 64 then k
  else { k with pendingSignals := k.pendingSignals ||| (1 <<< (signal - 1)) }

/-! ## Descriptors -/

/-- The handle a descriptor stands for.  Without an entry, `0` to `2` stand for the
terminal unless they are marked closed. -/
def Files.handle (f : Files) (tty : Option Nat) (fd : Int) : Option Handle :=
  match f.fds.lookup fd with
  | some h => some h
  | none =>
    if f.closedFDs fd then none
    else if 0 ≤ fd ∧ fd ≤ 2 then tty.map .tty
    else none

def KState.handleForFD (s : KState) (fd : Int) : Option Handle := s.files.handle s.kern.tty fd

/-- `k.fds[fd]` -/
def KState.entry (s : KState) (fd : Int) : Option Handle := s.files.fds.lookup fd

theorem handleForFD_entry {s : KState} {fd : Int} {f : Handle} (h : s.entry fd = some f) :
    s.handleForFD fd = some f := by
  rw [KState.entry] at h
  simp only [KState.handleForFD, Files.handle, h]

theorem handleForFD_implicit {s : KState} {fd : Int} (h : s.entry fd = none) :
    s.handleForFD fd =
      if s.files.closedFDs fd then none
      else if 0 ≤ fd ∧ fd ≤ 2 then s.kern.tty.map .tty else none := by
  rw [KState.entry] at h
  simp only [KState.handleForFD, Files.handle, h]

end IshGo.Kernel
