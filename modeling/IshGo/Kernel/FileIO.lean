/-
# `IshGo.Kernel.FileIO` — reading, writing and seeking

`handleRead`, `handleReadv`, `handleWrite`, `handleWritev`, `writeBytes`, `lseek`,
`llseek` and `statFD` of `internal/kernel/syscall.go`.
-/
import IshGo.Kernel.Descriptors

namespace IshGo.Kernel

open I386

/-! ## Endpoints -/

/-- What a read or a write is made on: the terminal of the kernel (`k.TTY`), a pipe
without waiting, or a handle by its own methods. -/
inductive Endpoint where
  | terminal (tty : Nat)
  | nonblocking (pipe : Nat)
  | handle (h : Handle)
  deriving DecidableEq, Repr

namespace Endpoint

def target : Endpoint → Handle
  | terminal tty => .tty tty
  | nonblocking id => .pipe id
  | handle h => h

def read (host : Host) (len : Nat) : Endpoint → ObjM Transfer
  | terminal tty => readInput host tty true len
  | nonblocking id => pipeReadNonblocking id len
  | handle h => h.read host len

def write (host : Host) (data : List U8) : Endpoint → ObjM Transfer
  | terminal tty => writeOutput tty data
  | nonblocking id => pipeWriteNonblocking id data
  | handle h => h.write host data

/-- Whether `errPipeWouldBlock` blocks the task. -/
def blocks : Endpoint → Transfer → Bool
  | nonblocking _, r => r.err = some .wouldBlock
  | _, _ => false

end Endpoint

def readFrom (host : Host) (e : Endpoint) (len : Nat) : KernelM Transfer :=
  onHandle (.read e.target len) (e.read host len)

def writeTo (host : Host) (e : Endpoint) (data : List U8) : KernelM Transfer :=
  onHandle (.write e.target data) (e.write host data)

namespace KState

def readEntry (s : KState) (aware : Bool) : Handle → Endpoint
  | .tty t =>
    match s.kern.tty with
    | some tty => .terminal tty
    | none => .handle (.tty t)
  | .pipe id => if aware then .nonblocking id else .handle (.pipe id)
  | f => .handle f

/-- What `handleRead` and `handleReadv` read from.  `aware` says whether pipes are
read without waiting; `handleReadv` always waits. -/
def readSource (s : KState) (fd : Int) (aware : Bool) : Option Endpoint :=
  match s.entry fd with
  | some f => some (s.readEntry aware f)
  | none => if fd = 0 ∧ s.files.closedFDs fd = false then s.kern.tty.map .terminal else none

/-- The entry on which `writeBytes` calls `Write`. -/
def writeEntry (s : KState) (fd : Int) : Option Endpoint := (s.entry fd).map .handle

/-- What `writeBytes` writes to.  It looks at the terminal before the table. -/
def writeTarget (s : KState) (fd : Int) : Option Endpoint :=
  match s.kern.tty with
  | some tty => if fd = 1 ∨ fd = 2 then some (.terminal tty) else s.writeEntry fd
  | none => s.writeEntry fd

/-- The pipe that `handleWrite` writes to without waiting. -/
def nonblockingTarget (s : KState) (fd : Int) : Option Endpoint :=
  match s.entry fd with
  | some (.pipe id) => if s.kern.schedulerAware then some (.nonblocking id) else none
  | _ => none

end KState

/-- The task blocked on a pipe; a task that is already blocked gets `EAGAIN`. -/
def blockPipe (b : PipeBlock) : KernelM Unit := fun s =>
  match s.kern.blockedPipe with
  | none => .ok () { s with kern := { s.kern with blockedPipe := some b } }
  | some _ => .ok () (s.ret eagain)

def queueSignal (signal : Nat) : KernelM Unit := fun s =>
  .ok () { s with kern := s.kern.queueSignal signal }

/-! ## Read -/

/-- The error a failed read returns; `io.EOF` is no failure. -/
def readErrno : Option IOErr → Option U32
  | none | some .eof => none
  | some .canceled | some .deadlineExceeded => some eintr
  | some .again => some eagain
  | some _ => some efault

/-- The end of `handleRead`. -/
def storeRead (addr : U32) (r : Transfer) : KernelM Unit := do
  match readErrno r.err with
  | some e => ret e
  | none => if ← memWriteBytes addr r.bytes then ret (BitVec.ofNat 32 r.count) else ret efault

def handleRead (host : Host) (fd : Int) (addr count : U32) : KernelM Unit := do
  let s ← get
  match s.readSource fd s.kern.schedulerAware with
  | none => ret ebadf
  | some e => do
      let r ← readFrom host e (capCount count)
      if e.blocks r then blockPipe ⟨fd, addr, count, false, []⟩ else storeRead addr r

/-- What a vector call returns when it stops: the error if nothing has been moved. -/
def retTotal (total e : U32) : KernelM Unit := if total = 0 then ret e else ret total

/-- Base and length of the `i`-th `iovec`. -/
def iovec (mem : Memory) (iovAddr : U32) (i : Nat) : Option (U32 × U32) :=
  match mem.read32 (iovAddr + BitVec.ofNat 32 (i * 8)) with
  | .error _ => none
  | .ok base =>
    match mem.read32 (iovAddr + BitVec.ofNat 32 (i * 8 + 4)) with
    | .error _ => none
    | .ok length => some (base, length)

/-- A turn of the loop of `handleReadv` after the read; `next` is the rest of the loop. -/
def storeReadv (base total : U32) (len : Nat) (r : Transfer) (next : U32 → KernelM Unit) :
    KernelM Unit := do
  match readErrno r.err with
  | some e => retTotal total e
  | none =>
    if ← memWriteBytes base r.bytes then
      if r.count ≠ len ∨ r.err = some .eof then ret (total + BitVec.ofNat 32 r.count)
      else next (total + BitVec.ofNat 32 r.count)
    else retTotal total efault

/-- The loop of `handleReadv`, with the turns left, the index and the total. -/
def handleReadvLoop (host : Host) (fd : Int) (iovAddr : U32) : Nat → Nat → U32 → KernelM Unit
  | 0, _, total => ret total
  | n + 1, i, total => do
      let s ← get
      match iovec s.mem iovAddr i with
      | none => retTotal total efault
      | some (base, length) =>
        match s.readSource fd false with
        | none => retTotal total ebadf
        | some e => do
            let r ← readFrom host e (capCount length)
            storeReadv base total (capCount length) r
              (handleReadvLoop host fd iovAddr n (i + 1))

def handleReadv (host : Host) (fd : Int) (iovAddr iovCount : U32) : KernelM Unit :=
  handleReadvLoop host fd iovAddr (capCount iovCount) 0 0

/-! ## Write -/

def writeBytes (host : Host) (fd : Int) (data : List U8) : KernelM Transfer := do
  let s ← get
  match s.writeTarget fd with
  | none => return ⟨0, some .badFileDescriptor, []⟩
  | some e => do
      let r ← writeTo host e data
      if r.err = some .brokenPipe then queueSignal 13
      return r

/-- The end of `handleWrite` after `writeBytes`. -/
def retWrite (r : Transfer) : KernelM Unit :=
  match r.err with
  | none => ret (BitVec.ofNat 32 r.count)
  | some .brokenPipe => ret epipe
  | some .again => ret eagain
  | some _ => ret efault

/-- The end of `handleWrite` on a pipe that it does not wait for. -/
def retNonblocking (r : Transfer) : KernelM Unit :=
  match r.err with
  | none => ret (BitVec.ofNat 32 r.count)
  | some .brokenPipe => do
      queueSignal 13
      ret epipe
  | some _ => ret efault

/-- `handleWrite` once it has the bytes. -/
def handleWriteData (host : Host) (fd : Int) (addr count : U32) (data : List U8) : KernelM Unit := do
  let s ← get
  match s.nonblockingTarget fd with
  | some e => do
      let r ← writeTo host e data
      if e.blocks r then blockPipe ⟨fd, addr, count, true, data⟩ else retNonblocking r
  | none => do
      let r ← writeBytes host fd data
      retWrite r

def handleWrite (host : Host) (fd : Int) (addr count : U32) : KernelM Unit := do
  let s ← get
  match s.mem.readBytes addr (BitVec.ofNat 32 (capCount count)) with
  | .error _ => ret efault
  | .ok data => handleWriteData host fd addr count data

/-- The bytes of the `i`-th segment of a vector. -/
def segment (mem : Memory) (iovAddr : U32) (i : Nat) : Option (List U8) :=
  match iovec mem iovAddr i with
  | none => none
  | some (base, length) => (mem.readBytes base length).toOption

/-- A turn of the loop of `handleWritev` after the write. -/
def nextWritev (total : U32) (len : Nat) (r : Transfer) (next : U32 → KernelM Unit) : KernelM Unit :=
  let written := BitVec.ofNat 32 r.count
  if r.err ≠ none then
    if total + written = written then ret efault else ret (total + written)
  else if r.count ≠ len then ret (total + written)
  else next (total + written)

/-- The loop of `handleWritev`, with the turns left, the index and the total. -/
def handleWritevLoop (host : Host) (fd : Int) (iovAddr : U32) : Nat → Nat → U32 → KernelM Unit
  | 0, _, total => ret total
  | n + 1, i, total => do
      let s ← get
      match segment s.mem iovAddr i with
      | none => retTotal total efault
      | some data => do
          let r ← writeBytes host fd data
          nextWritev total data.length r (handleWritevLoop host fd iovAddr n (i + 1))

def handleWritev (host : Host) (fd : Int) (iovAddr iovCount : U32) : KernelM Unit :=
  handleWritevLoop host fd iovAddr (capCount iovCount) 0 0

/-! ## Seek and stat -/

def lseek (host : Host) (fd : Int) (offset whence : Int) : KernelM Unit := do
  let s ← get
  match s.handleForFD fd with
  | none => ret ebadf
  | some f => do
      match ← onObjs (f.seek host offset whence) with
      | .error _ => ret einval
      | .ok pos => ret (BitVec.ofInt 32 pos)

def llseek (host : Host) (fd : Int) (offset : U64) (resultAddr : U32) (whence : Int) :
    KernelM Unit := do
  let s ← get
  match s.handleForFD fd with
  | none => ret ebadf
  | some f => do
      match ← onObjs (f.seek host offset.toInt whence) with
      | .error _ => ret einval
      | .ok pos =>
        let pos := BitVec.ofInt 64 pos
        if ← memWrite32 resultAddr (pos.setWidth 32) then
          if ← memWrite32 (resultAddr + 4) ((pos >>> 32).setWidth 32) then ret 0 else ret efault
        else ret efault

def linuxMode (info : FileInfo) : U32 :=
  info.perm |||
    (if info.isDir then 0o040000 else if info.charDevice then 0o020000
     else if info.namedPipe then 0o010000 else if info.symlink then 0o120000 else 0o100000)

/-- The buffer of `writeStat`. -/
def statBytes (info : FileInfo) : List U8 :=
  List.replicate 16 0 ++ leBytes (linuxMode info) 4 ++ leBytes (1 : U32) 4 ++
    List.replicate 20 0 ++ leBytes (BitVec.ofInt 64 info.size) 8 ++ leBytes (4096 : U32) 4 ++
    leBytes (BitVec.ofInt 64 ((info.size + 511).tdiv 512)) 8 ++ List.replicate 40 0

def writeStat (addr : U32) (info : FileInfo) : KernelM Unit := do
  if ← memWriteBytes addr (statBytes info) then ret 0 else ret efault

def statFD (host : Host) (fd : Int) (statAddr : U32) : KernelM Unit := do
  let s ← get
  match s.handleForFD fd with
  | none => ret ebadf
  | some f => do
      match ← onObjs (f.stat host) with
      | .error _ => ret efault
      | .ok info => writeStat statAddr info

end IshGo.Kernel
