/-
# `IshGo.Kernel.Handles` — the objects behind descriptors

`internal/kernel/handles.go` and `internal/pty/pty.go`.  A `Handle` is the value of a
`fileHandle`: a pointer is the number of its object in `Objects`, so that two handles
are equal here exactly when Go's `==` says so.
-/
import IshGo.Kernel.Pipe
import Mathlib.Logic.Function.Basic

namespace IshGo.Kernel

open I386 Function

inductive Handle where
  | file (id : Nat)
  | virtual (id : Nat)
  | null
  | zero
  | tty (id : Nat)
  | pipe (id : Nat)
  deriving DecidableEq, Repr

/-! ## Terminals -/

structure Terminal where
  input : List U8
  output : List U8
  closed : Bool
  inputClosed : Bool
  canonical : Bool
  echo : Bool
  deriving DecidableEq, Repr

namespace Terminal

def new : Terminal :=
  { input := [], output := [], closed := false, inputClosed := false, canonical := true, echo := true }

def containsNewline (data : List U8) : Bool := data.any fun b => b = 10 ∨ b = 13

def writeOutput (t : Terminal) (data : List U8) : Transfer × Terminal :=
  if t.closed then (⟨0, some .eof, []⟩, t)
  else (⟨data.length, none, data⟩, { t with output := t.output ++ data })

/-- A turn of the loop of `read` on the input queue; `none` if it has to wait. -/
def readTurn (t : Terminal) (len : Nat) : Option (Transfer × Terminal) :=
  if t.input.length > 0 ∧ (t.canonical = false ∨ containsNewline t.input) then
    let n := min len t.input.length
    some (⟨n, none, t.input.take len⟩, { t with input := t.input.drop n })
  else if t.closed ∨ t.inputClosed then some (⟨0, some .eof, []⟩, t)
  else none

end Terminal

/-! ## Host -/

/-- What `Stat` says of a file, as far as the kernel looks at it. -/
structure FileInfo where
  size : Int
  perm : U32
  isDir : Bool
  charDevice : Bool
  namedPipe : Bool
  symlink : Bool
  deriving DecidableEq, Repr

/-- The arguments of `os.OpenFile` after the name. -/
structure OpenFlags where
  access : U32
  create : Bool
  excl : Bool
  trunc : Bool
  append : Bool
  perm : U32
  deriving DecidableEq, Repr

inductive Wakeup where
  | woken
  | interrupted
  | timedOut
  deriving DecidableEq, Repr

/-- The answers of the host, and of the file system built on it, to the call with
number `tick`. -/
structure Host where
  /-- `(*os.File).Read` into a buffer of `len` bytes -/
  read : (tick file len : Nat) → List U8 × Option IOErr
  write : (tick file : Nat) → List U8 → Nat × Option IOErr
  seek : (tick file : Nat) → (offset whence : Int) → Except IOErr Int
  stat : (tick file : Nat) → Except IOErr FileInfo
  /-- `FS.ReadVirtual`; `none` if the name is not virtual. -/
  readVirtual : (tick : Nat) → (name : List U8) → Except IOErr (Option (List U8))
  /-- `FS.Resolve` -/
  resolve : (tick : Nat) → (name : List U8) → Except IOErr (List U8)
  openFile : (tick : Nat) → (name : List U8) → OpenFlags → Except IOErr Unit
  /-- `time.Now`, in nanoseconds. -/
  now : (tick : Nat) → Nat
  /-- How a wait on a futex ends that is made on the host thread. -/
  futexWait : (tick : Nat) → Wakeup
  /-- The terminal after a wait for input. -/
  wake : (tick : Nat) → Terminal → Terminal
  /-- The error of the kernel's context, if it ends the wait. -/
  contextErr : (tick : Nat) → Option IOErr

def Host.silent : Host :=
  { read := fun _ _ _ => ([], some .other)
    write := fun _ _ _ => (0, some .other)
    seek := fun _ _ _ _ => .error .other
    stat := fun _ _ => .error .other
    readVirtual := fun _ _ => .error .other
    resolve := fun _ _ => .error .other
    openFile := fun _ _ _ => .error .other
    now := fun _ => 0
    futexWait := fun _ => .interrupted
    wake := fun _ t => t
    contextErr := fun _ => none }

/-! ## Objects -/

/-- A `virtualHandle`. -/
structure VirtualFile where
  name : List U8
  data : List U8
  offset : Int
  deriving DecidableEq, Repr

structure Objects where
  pipes : Nat → Pipe
  ends : Nat → PipeEnd
  virtuals : Nat → VirtualFile
  fileClosed : Nat → Bool
  terminals : Nat → Terminal
  nextPipe : Nat
  nextEnd : Nat
  nextVirtual : Nat
  nextFile : Nat
  tick : Nat

def Objects.new : Objects :=
  { pipes := fun _ => Pipe.new
    ends := fun _ => ⟨0, false, false, true⟩
    virtuals := fun _ => ⟨[], [], 0⟩
    fileClosed := fun _ => true
    terminals := fun _ => Terminal.new
    nextPipe := 0
    nextEnd := 0
    nextVirtual := 0
    nextFile := 0
    tick := 0 }

inductive Hang where
  | hang
  deriving DecidableEq, Repr

abbrev ObjM := EStateM Hang Objects

namespace Objects

/-- `writers += d` or `readers += d`, for the end `e`. -/
def addEnd (o : Objects) (e : PipeEnd) (d : Int) : Objects :=
  let p := o.pipes e.pipe
  let p' := if e.write then { p with writers := p.writers + d } else { p with readers := p.readers + d }
  { o with pipes := update o.pipes e.pipe p' }

def close (o : Objects) : Handle → Objects
  | .pipe id =>
    let e := o.ends id
    if e.closed then o
    else { o.addEnd e (-1) with ends := update o.ends id { e with closed := true } }
  | .file id => { o with fileClosed := update o.fileClosed id true }
  | .virtual _ | .null | .zero | .tty _ => o

/-- `cloneHandle`: a new handle for a pipe, the same handle for everything else. -/
def cloneHandle (o : Objects) : Handle → Handle × Objects
  | .pipe id =>
    let e := o.ends id
    (.pipe o.nextEnd,
      { o.addEnd e 1 with
        ends := update o.ends o.nextEnd { e with closed := false }
        nextEnd := o.nextEnd + 1 })
  | h => (h, o)

def newPipePair (o : Objects) (nonblock : Bool) : Handle × Handle × Objects :=
  (.pipe o.nextEnd, .pipe (o.nextEnd + 1),
    { o with
      pipes := update o.pipes o.nextPipe Pipe.new
      ends := update (update o.ends o.nextEnd ⟨o.nextPipe, false, nonblock, false⟩)
        (o.nextEnd + 1) ⟨o.nextPipe, true, nonblock, false⟩
      nextPipe := o.nextPipe + 1
      nextEnd := o.nextEnd + 2 })

/-- A new `virtualHandle`. -/
def newVirtual (o : Objects) (v : VirtualFile) : Handle × Objects :=
  (.virtual o.nextVirtual,
    { o with virtuals := update o.virtuals o.nextVirtual v, nextVirtual := o.nextVirtual + 1 })

def newFile (o : Objects) : Handle × Objects :=
  (.file o.nextFile,
    { o with fileClosed := update o.fileClosed o.nextFile false, nextFile := o.nextFile + 1 })

def nextTick (o : Objects) : Objects := { o with tick := o.tick + 1 }

def setPipe (o : Objects) (id : Nat) (p : Pipe) : Objects :=
  { o with pipes := update o.pipes id p }

def setTerminal (o : Objects) (id : Nat) (t : Terminal) : Objects :=
  { o with terminals := update o.terminals id t }

end Objects

/-! ## Reading and writing -/

def hostCall : ObjM Nat := do
  let o ← get
  set o.nextTick
  return o.tick

/-- The state of the terminal after a turn that has found something to do. -/
def finishRead (id : Nat) (r : Transfer × Terminal) : ObjM Transfer := do
  modify (·.setTerminal id r.2)
  return r.1

/-- `ReadInput` with the context of the kernel, or with the background context, which
never ends.  The loop ends when there is input, when the terminal is closed, or with
the context. -/
def readInput (host : Host) (id : Nat) (context : Bool) (len : Nat) : ObjM Transfer := do
  if len = 0 then return ⟨0, none, []⟩
  else match ((← get).terminals id).readTurn len with
    | some r => finishRead id r
    | none => do
        let tick ← hostCall
        let t := host.wake tick ((← get).terminals id)
        modify (·.setTerminal id t)
        match t.readTurn len with
        | some r => finishRead id r
        | none =>
          match if context then host.contextErr tick else none with
          | some err => return ⟨0, some err, []⟩
          | none => throw .hang

def writeOutput (id : Nat) (data : List U8) : ObjM Transfer := do
  let r := ((← get).terminals id).writeOutput data
  modify (·.setTerminal id r.2)
  return r.1

/-- `pipeHandle.ReadNonblocking` -/
def pipeReadNonblocking (id len : Nat) : ObjM Transfer := do
  let e := (← get).ends id
  if e.write then return ⟨0, some .invalid, []⟩
  else if len = 0 then return ⟨0, none, []⟩
  else
    let r := ((← get).pipes e.pipe).readNonblocking len
    modify (·.setPipe e.pipe r.2)
    return r.1

/-- `pipeHandle.WriteNonblocking` -/
def pipeWriteNonblocking (id : Nat) (src : List U8) : ObjM Transfer := do
  let e := (← get).ends id
  if e.write = false then return ⟨0, some .invalid, []⟩
  else if src.length = 0 then return ⟨0, none, []⟩
  else
    let r := ((← get).pipes e.pipe).writeNonblocking src
    modify (·.setPipe e.pipe r.2)
    return r.1

/-- `pipeHandle.Read`.  Nobody else runs while it waits. -/
def pipeRead (id len : Nat) : ObjM Transfer := do
  let e := (← get).ends id
  if e.write then return ⟨0, some .invalid, []⟩
  else if len = 0 then return ⟨0, none, []⟩
  else
    let r := ((← get).pipes e.pipe).readTurn e.nonblock len
    modify (·.setPipe e.pipe r.2.2)
    match r.1 with
    | .ret n err => return ⟨n, err, r.2.1⟩
    | .next _ | .wait => throw .hang

/-- The loop of `pipeHandle.Write`; a turn that goes on has accepted a byte. -/
def pipeWriteLoop (e : PipeEnd) (src : List U8) : Nat → Nat → ObjM Transfer
  | 0, _ => throw .hang
  | fuel + 1, written => do
      let r := ((← get).pipes e.pipe).writeTurn e.nonblock src written
      modify (·.setPipe e.pipe r.2.2)
      match r.1 with
      | .ret n err => return ⟨n, err, src.take n⟩
      | .next n => pipeWriteLoop e src fuel n
      | .wait => throw .hang

/-- `pipeHandle.Write` -/
def pipeWrite (id : Nat) (src : List U8) : ObjM Transfer := do
  let e := (← get).ends id
  if e.write = false then return ⟨0, some .invalid, []⟩
  else if src.length = 0 then return ⟨0, none, []⟩
  else pipeWriteLoop e src (src.length + 1) 0

/-- `virtualHandle.Read` -/
def virtualRead (id len : Nat) : ObjM Transfer := do
  let v := (← get).virtuals id
  if v.offset ≥ v.data.length then return ⟨0, some .eof, []⟩
  else
    let rest := v.data.drop v.offset.toNat
    let n := min len rest.length
    modify fun o =>
      { o with virtuals := update o.virtuals id { v with offset := v.offset + n } }
    return ⟨n, none, rest.take len⟩

namespace Handle

/-- `Read` into a buffer of `len` bytes. -/
def read (host : Host) (len : Nat) : Handle → ObjM Transfer
  | .null => return ⟨0, some .eof, []⟩
  | .zero => return ⟨len, none, List.replicate len 0⟩
  | .virtual id => virtualRead id len
  | .tty id => readInput host id false len
  | .pipe id => pipeRead id len
  | .file id => do
      if (← get).fileClosed id then return ⟨0, some .closed, []⟩
      else
        let r := host.read (← hostCall) id len
        return ⟨(r.1.take len).length, r.2, r.1.take len⟩

def write (host : Host) (data : List U8) : Handle → ObjM Transfer
  | .null | .zero => return ⟨data.length, none, data⟩
  | .virtual _ => return ⟨0, some .permission, []⟩
  | .tty id => writeOutput id data
  | .pipe id => pipeWrite id data
  | .file id => do
      if (← get).fileClosed id then return ⟨0, some .closed, []⟩
      else
        let r := host.write (← hostCall) id data
        return ⟨min r.1 data.length, r.2, data.take r.1⟩

/-- `virtualHandle.Seek` -/
def virtualSeek (id : Nat) (offset whence : Int) : ObjM (Except IOErr Int) := do
  let v := (← get).virtuals id
  let base : Option Int :=
    if whence = 0 then some 0 else if whence = 1 then some v.offset
    else if whence = 2 then some v.data.length else none
  match base with
  | none => return .error .invalid
  | some base =>
    if base + offset < 0 then return .error .invalid
    else do
      modify fun o =>
        { o with virtuals := update o.virtuals id { v with offset := base + offset } }
      return .ok (base + offset)

def seek (host : Host) (offset whence : Int) : Handle → ObjM (Except IOErr Int)
  | .virtual id => virtualSeek id offset whence
  | .file id => do
      if (← get).fileClosed id then return .error .closed
      else return host.seek (← hostCall) id offset whence
  | .null | .zero | .tty _ | .pipe _ => return .error .invalid

/-- The `deviceInfo` of null, zero and terminals. -/
def charDevice : FileInfo :=
  { size := 0, perm := 0o666, isDir := false, charDevice := true, namedPipe := false, symlink := false }

def stat (host : Host) : Handle → ObjM (Except IOErr FileInfo)
  | .null | .zero | .tty _ => return .ok charDevice
  | .pipe _ => return .ok { charDevice with perm := 0o660, charDevice := false, namedPipe := true }
  | .virtual id => do
      return .ok { charDevice with
        size := ((← get).virtuals id).data.length, perm := 0o444, charDevice := false }
  | .file id => do
      if (← get).fileClosed id then return .error .closed
      else return host.stat (← hostCall) id

end Handle

end IshGo.Kernel
