/-
# `IshGo.Kernel.Syscall` — the dispatch of system calls

`Handle` of `internal/kernel/syscall.go`.  `decode` is its `switch`: it turns the
registers into a `Request`.  `Request.run` carries a request out, as far as a kernel does
that alone; `fork`, `clone`, `wait4` and `execve` go to the scheduler and to the process,
and are the business of `IshGo.Guest`.
-/
import IshGo.Kernel.Frame
import IshGo.Kernel.Signals

namespace IshGo.Kernel

open I386 Lib

/-! ## Requests -/

inductive TaskCall where
  | fork
  | clone (flags childStack parentTID childTID tls : U32)
  | wait4 (pid statusAddr options : U32)
  | execve (pathAddr argvAddr envpAddr : U32)

inductive Request where
  | exit (code : U32)
  | table (op : TableOp)
  | io (c : IOCall)
  | llseek (fd : Int) (offset : U64) (resultAddr : U32) (whence : Int)
  | kill (pid signal : U32)
  | sigprocmask (how setAddr oldAddr size : U32) (realtime : Bool)
  | rtSigaction (signal actionAddr oldActionAddr size : U32)
  | rtSigreturn
  | futex (uaddr op value timeoutAddr : U32)
  | getPID
  | getID
  | setThreadArea (addr : U32)
  | setTIDAddress (addr : U32)
  | getGroups (size addr : U32)
  | setGroups (size addr : U32)
  | munmap (addr length : U32)
  | mprotect (addr length flags : U32)
  | task (c : TaskCall)
  | service (n : U32)
  | refuse

def cloneVM : U32 := 0x00000100
def cloneThread : U32 := 0x00010000
def cloneParentSettid : U32 := 0x00100000
def cloneChildSettid : U32 := 0x01000000

/-- `fork` (`2`) and `clone` (`120`). -/
def decodeClone (regs : Reg → U32) : Request :=
  let flags := regs EBX
  if flags &&& (cloneVM ||| cloneThread) = cloneVM ||| cloneThread then
    .task (.clone flags (regs ECX) (regs EDX) (regs EDI) (regs ESI))
  else if flags &&& ~~~0xff ≠ 0 then .refuse
  else .task .fork

/-- `int(arg(r))` -/
def intArg (regs : Reg → U32) (r : Reg) : Int := (regs r).toNat

def decodeTable (n : U32) (regs : Reg → U32) : Option TableOp :=
  if n = 5 then some (.open (regs EBX) (regs ECX) (regs EDX))
  else if n = 295 then some (.open (regs ECX) (regs EDX) (regs ESI))
  else if n = 6 then some (.close (intArg regs EBX))
  else if n = 42 then some (.pipe (regs EBX) 0)
  else if n = 331 then some (.pipe (regs EBX) (regs ECX))
  else if n = 63 then some (.dup2 (intArg regs EBX) (intArg regs ECX))
  else if n = 330 then some (.dup3 (intArg regs EBX) (intArg regs ECX) (regs EDX))
  else if n = 55 ∨ n = 221 then some (.fcntl (intArg regs EBX) (regs ECX) (regs EDX))
  else none

def decodeIO (n : U32) (regs : Reg → U32) : Option IOCall :=
  let fd := intArg regs EBX
  if n = 3 then some (.read fd (regs ECX) (regs EDX))
  else if n = 4 then some (.write fd (regs ECX) (regs EDX))
  else if n = 145 then some (.readv fd (regs ECX) (regs EDX))
  else if n = 146 then some (.writev fd (regs ECX) (regs EDX))
  else if n = 19 then some (.lseek fd (regs ECX).toInt (intArg regs EDX))
  else if n = 197 then some (.fstat64 fd (regs ECX))
  else none

def decodeSignal (n : U32) (regs : Reg → U32) : Option Request :=
  if n = 37 then some (.kill (regs EBX) (regs ECX))
  else if n = 126 then some (.sigprocmask (regs EBX) (regs ECX) (regs EDX) 4 false)
  else if n = 175 then some (.sigprocmask (regs EBX) (regs ECX) (regs EDX) (regs ESI) true)
  else if n = 174 then some (.rtSigaction (regs EBX) (regs ECX) (regs EDX) (regs ESI))
  else if n = 173 then some .rtSigreturn
  else if n = 240 then some (.futex (regs EBX) (regs ECX) (regs EDX) (regs ESI))
  else none

/-- `getpid`, `getpgrp`, `getsid`, `gettid`, `getpgid`, and `setsid`, which returns the same. -/
def pidCalls : List U32 := [20, 65, 147, 224, 132, 66]

/-- `getuid32`, `getgid32`, `geteuid32`, `getegid32`, and `setpgid`, which returns `0` too. -/
def zeroCalls : List U32 := [199, 200, 201, 202, 57]

/-- `sysinfo`, `fstatat64`, `statx`, `unlink`, `access`, `mkdir`, `rename`, `ioctl`, `stat64`,
`brk`, `chdir`, `getcwd`, `uname`, `gettimeofday`, `clock_gettime`, `getrandom`, `readlink`,
`getdents64`, `nanosleep`, `poll`, `mmap2`, `statfs64`, `mremap` -/
def serviceCalls : List U32 :=
  [116, 300, 383, 10, 33, 39, 38, 54, 195, 45, 12, 183, 122, 78, 265, 355, 85, 220, 162, 168, 192,
    268, 163]

def decodeOwn (n : U32) (regs : Reg → U32) : Option Request :=
  if n ∈ pidCalls then some .getPID
  else if n ∈ zeroCalls then some .getID
  else if n = 243 then some (.setThreadArea (regs EBX))
  else if n = 258 then some (.setTIDAddress (regs EBX))
  else if n = 205 then some (.getGroups (regs EBX) (regs ECX))
  else if n = 206 then some (.setGroups (regs EBX) (regs ECX))
  else if n = 91 then some (.munmap (regs EBX) (regs ECX))
  else if n = 125 then some (.mprotect (regs EBX) (regs ECX) (regs EDX))
  else none

def decodeTask (n : U32) (regs : Reg → U32) : Option Request :=
  if n = 1 ∨ n = 252 then some (.exit (regs EBX))
  else if n = 2 then some (.task .fork)
  else if n = 120 then some (decodeClone regs)
  else if n = 114 then some (.task (.wait4 (regs EBX) (regs ECX) (regs EDI)))
  else if n = 11 then some (.task (.execve (regs EBX) (regs ECX) (regs EDX)))
  else if n = 140 then
    some (.llseek (intArg regs EBX) ((regs ECX).setWidth 64 <<< 32 ||| (regs EDX).setWidth 64)
      (regs ESI) (intArg regs EDI))
  else none

def decode (regs : Reg → U32) : Request :=
  let n := regs EAX
  match decodeTask n regs, decodeTable n regs, decodeIO n regs, decodeSignal n regs,
      decodeOwn n regs with
  | some r, _, _, _, _ => r
  | none, some op, _, _, _ => .table op
  | none, none, some c, _, _ => .io c
  | none, none, none, some r, _ => r
  | none, none, none, none, some r => r
  | none, none, none, none, none => if n ∈ serviceCalls then .service n else .refuse

/-! ## Running a request -/

/-- The calls that are not modelled here, and what is known of them. -/
structure Services where
  run : U32 → KernelM Unit
  moves : ∀ n, Stays Moves (run n)

namespace KState

/-- `exit`, `exit_group` -/
def exit (s : KState) (code : U32) : KState :=
  { s with
    cpu := { s.cpu with halted := true }
    kern := { s.kern with exited := true, exitCode := code } }.ret 0

def setThreadArea (s : KState) (addr : U32) : KState :=
  match s.mem.read32 (addr + 4) with
  | .error _ => s.ret efault
  | .ok base => { s with cpu := { s.cpu with gsBase := base } }.ret 0

def setTIDAddress (s : KState) (addr : U32) : KState :=
  { s with kern := { s.kern with tidAddress := addr } }.ret s.kern.pid

def getGroups (s : KState) (size addr : U32) : KState :=
  if size = 0 then s.ret 1
  else
    match s.mem.write32 addr 0 with
    | .error _ => s.ret efault
    | .ok mem => { s with mem := mem }.ret 1

def setGroups (s : KState) (size addr : U32) : KState :=
  if size > 1 <<< 16 then s.ret einval
  else if size = 0 then s.ret 0
  else
    match s.mem.readBytes addr (size * 4) with
    | .error _ => s.ret efault
    | .ok _ => s.ret 0

def onSpace (s : KState) (f : AddressSpace → U32 × AddressSpace) : KState :=
  let r := f s.mem.space
  { s with mem := { s.mem with space := r.2 } }.ret r.1

end KState

def update (f : KState → KState) : KernelM Unit := fun s => .ok () (f s)

/-- A request of a kernel alone.  The requests of tasks are refused here. -/
def Request.run (host : Host) (svc : Services) : Request → KernelM Unit
  | exit code => update (·.exit code)
  | table op => update (op.run host)
  | io c => c.run host
  | llseek fd offset resultAddr whence => Kernel.llseek host fd offset resultAddr whence
  | kill pid signal => update (·.kill pid signal)
  | sigprocmask how setAddr oldAddr size realtime =>
    update (·.sigprocmask how setAddr oldAddr size realtime)
  | rtSigaction signal actionAddr oldActionAddr size =>
    update (·.rtSigaction signal actionAddr oldActionAddr size)
  | rtSigreturn => update (·.rtSigreturn)
  | futex uaddr op value timeoutAddr => update (·.futexCall host uaddr op value timeoutAddr)
  | getPID => update fun s => s.ret s.kern.pid
  | getID => update (·.ret 0)
  | setThreadArea addr => update (·.setThreadArea addr)
  | setTIDAddress addr => update (·.setTIDAddress addr)
  | getGroups size addr => update (·.getGroups size addr)
  | setGroups size addr => update (·.setGroups size addr)
  | munmap addr length => update (·.onSpace (Kernel.munmap · addr length))
  | mprotect addr length flags => update (·.onSpace (Kernel.mprotect · addr length flags))
  | service n => svc.run n
  | task _ | refuse => update (·.ret enosys)

/-! ## A pipe call that has blocked -/

def resumeRead (addr : U32) (r : Transfer) : KernelM Unit := do
  if r.err ≠ none ∧ r.err ≠ some .eof then ret efault
  else if ← memWriteBytes addr r.bytes then ret (BitVec.ofNat 32 r.count) else ret efault

def unblockPipe : KernelM Unit := update fun s => { s with kern := { s.kern with blockedPipe := none } }

/-- The last part of `TryResumeBlocked`; whether the task goes on. -/
def tryResumeBlockedPipe (host : Host) (b : PipeBlock) : KernelM Bool := do
  let s ← get
  match s.entry b.fd with
  | some (.pipe id) => do
      let e : Endpoint := .nonblocking id
      let r ← if b.write then writeTo host e b.data else readFrom host e (capCount b.count)
      if e.blocks r then return false
      else
        unblockPipe
        if b.write then retNonblocking r else resumeRead b.addr r
        return true
  | _ => do
      unblockPipe
      ret ebadf
      return true

end IshGo.Kernel
