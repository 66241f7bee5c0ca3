/-
# `IshGo.Kernel.Descriptors` — the descriptor table

The operations on descriptors of `internal/kernel`: `open`, `pipe`, `dup2`, `dup3`,
`fcntl`, `close`, and what `execve`, `exit` and `fork` do to the table
(`CloseCloexec`, `CloseOnExit`, `CloneForChild`).
-/
import IshGo.Kernel.State

set_option linter.dupNamespace false

namespace IshGo.Kernel

open I386

/-! ## The three maps -/

namespace Files

def install (f : Files) (fd : Int) (h : Handle) : Files := { f with fds := f.fds.insert fd h }
def remove (f : Files) (fd : Int) : Files := { f with fds := f.fds.erase fd }

def markClosed (f : Files) (fd : Int) : Files :=
  { f with closedFDs := Function.update f.closedFDs fd true }

def clearClosed (f : Files) (fd : Int) : Files :=
  { f with closedFDs := Function.update f.closedFDs fd false }

def markCloexec (f : Files) (fd : Int) : Files := { f with fdCloexec := f.fdCloexec.insert fd true }
def clearCloexec (f : Files) (fd : Int) : Files := { f with fdCloexec := f.fdCloexec.erase fd }

/-- What `allocateFD` passes over. -/
def taken (f : Files) (tty : Option Nat) (fd : Int) : Bool :=
  (f.fds.lookup fd).isSome || (fd ≤ 2 && tty.isSome && !f.closedFDs fd)

/-- The loop of `allocateFD`. -/
def allocateLoop (f : Files) (tty : Option Nat) : Nat → Int → Int
  | 0, fd => fd
  | n + 1, fd => if f.taken tty fd then f.allocateLoop tty n (fd + 1) else fd

/-- `allocateFD`: among one more number than can be taken, one is free. -/
def allocateFD (f : Files) (tty : Option Nat) (start : Int) : Int :=
  f.allocateLoop tty (f.fds.entries.length + 3) (if start < 0 then 0 else start)

end Files

section Lookups

variable (f : Files) (fd fd' : Int) (h : Handle)

@[simp] theorem lookup_install :
    (f.install fd h).fds.lookup fd' = if fd' = fd then some h else f.fds.lookup fd' := by
  by_cases hfd : fd' = fd
  · subst hfd
    rw [if_pos rfl]
    exact AList.lookup_insert f.fds
  · rw [if_neg hfd]
    exact AList.lookup_insert_ne hfd

@[simp] theorem lookup_remove :
    (f.remove fd).fds.lookup fd' = if fd' = fd then none else f.fds.lookup fd' := by
  by_cases hfd : fd' = fd
  · subst hfd
    rw [if_pos rfl]
    exact AList.lookup_erase fd' f.fds
  · rw [if_neg hfd]
    exact AList.lookup_erase_ne hfd

@[simp] theorem closedFDs_markClosed :
    (f.markClosed fd).closedFDs fd' = if fd' = fd then true else f.closedFDs fd' :=
  Function.update_apply _ _ _ _

@[simp] theorem closedFDs_clearClosed :
    (f.clearClosed fd).closedFDs fd' = if fd' = fd then false else f.closedFDs fd' :=
  Function.update_apply _ _ _ _

@[simp] theorem fds_markClosed : (f.markClosed fd).fds = f.fds := rfl
@[simp] theorem fds_clearClosed : (f.clearClosed fd).fds = f.fds := rfl
@[simp] theorem fds_markCloexec : (f.markCloexec fd).fds = f.fds := rfl
@[simp] theorem fds_clearCloexec : (f.clearCloexec fd).fds = f.fds := rfl
@[simp] theorem closedFDs_install : (f.install fd h).closedFDs = f.closedFDs := rfl
@[simp] theorem closedFDs_remove : (f.remove fd).closedFDs = f.closedFDs := rfl
@[simp] theorem closedFDs_markCloexec : (f.markCloexec fd).closedFDs = f.closedFDs := rfl
@[simp] theorem closedFDs_clearCloexec : (f.clearCloexec fd).closedFDs = f.closedFDs := rfl

end Lookups

namespace KState

def validFD (s : KState) (fd : Int) : Bool := (s.handleForFD fd).isSome

/-! ## Close -/

def closeDescriptor (s : KState) (fd : Int) : Bool × KState :=
  match s.entry fd with
  | none => (false, s)
  | some h =>
    (true, { s with
      objs := s.objs.close h
      files := ((s.files.remove fd).clearClosed fd).clearCloexec fd })

def closeTTY (s : KState) (fd : Int) : Bool × KState :=
  if fd < 0 ∨ fd > 2 ∨ s.kern.tty = none ∨ s.files.closedFDs fd then (false, s)
  else (true, { s with files := s.files.markClosed fd })

/-- `iosys.Close` on the two callbacks. -/
def closeResult (s : KState) (fd : Int) : U32 × KState :=
  let r := s.closeDescriptor fd
  if r.1 then (0, r.2)
  else
    let t := r.2.closeTTY fd
    if t.1 then (0, t.2) else (ebadf, t.2)

def close (s : KState) (fd : Int) : KState :=
  let r := s.closeResult fd
  r.2.ret r.1

/-! ## Dup -/

def oCloexec : U32 := 0x80000

/-- A clone of `h` installed on `fd`, as `dupInstall` and `fcntl` do it. -/
def installClone (s : KState) (fd : Int) (h : Handle) (cloexec : Bool) : KState :=
  let r := s.objs.cloneHandle h
  let files := ((s.files.install fd r.1).clearClosed fd).clearCloexec fd
  { s with files := if cloexec then files.markCloexec fd else files, objs := r.2 }

/-- The entry that `dupInstall` replaces is closed, unless it is the handle itself. -/
def closeReplaced (s : KState) (fd : Int) (h : Handle) : KState :=
  match s.entry fd with
  | some old => if old ≠ h then { s with objs := s.objs.close old } else s
  | none => s

/-- `dupInstall`, which `iosys.Dup` calls for an `oldFD` that has a handle. -/
def dupInstall (s : KState) (oldFD newFD : Int) (flags : U32) (dup3 : Bool) : U32 × KState :=
  match s.handleForFD oldFD with
  | none => (BitVec.ofInt 32 newFD, s)
  | some h =>
    (BitVec.ofInt 32 newFD,
      (s.closeReplaced newFD h).installClone newFD h (dup3 ∧ flags &&& oCloexec ≠ 0))

/-- `iosys.Dup` -/
def dupResult (s : KState) (oldFD newFD : Int) (flags : U32) (dup3 : Bool) : U32 × KState :=
  if newFD < 0 ∨ oldFD < 0 ∨ (flags ≠ 0 ∧ flags ≠ oCloexec) then (einval, s)
  else if oldFD = newFD then
    if dup3 = false ∧ s.validFD oldFD then (BitVec.ofInt 32 newFD, s) else (einval, s)
  else if s.validFD oldFD = false then (ebadf, s)
  else s.dupInstall oldFD newFD flags dup3

def dup2 (s : KState) (oldFD newFD : Int) : KState :=
  let r := s.dupResult oldFD newFD 0 false
  r.2.ret r.1

def dup3 (s : KState) (oldFD newFD : Int) (flags : U32) : KState :=
  let r := s.dupResult oldFD newFD flags true
  r.2.ret r.1

/-! ## Fcntl -/

def fDupFD : U32 := 0
def fGetFD : U32 := 1
def fSetFD : U32 := 2
def fGetFL : U32 := 3
def fSetFL : U32 := 4
def fDupFDCloexec : U32 := 1030

/-- `fcntl` with one of the four commands that ask for or set flags. -/
def fcntlFlags (s : KState) (fd : Int) (command argument : U32) : KState :=
  if s.validFD fd = false then s.ret ebadf
  else if command = fGetFD then s.ret (if s.files.fdCloexec.lookup fd = some true then 1 else 0)
  else if command = fSetFD then
    if argument &&& ~~~1 ≠ 0 then s.ret einval
    else if argument &&& 1 ≠ 0 then { s with files := s.files.markCloexec fd }.ret 0
    else { s with files := s.files.clearCloexec fd }.ret 0
  else s.ret 0

/-- `fcntl` with `fDupFD` or `fDupFDCloexec`. -/
def fcntlDup (s : KState) (fd : Int) (cloexec : Bool) (argument : U32) : KState :=
  if argument > 1 <<< 20 then s.ret einval
  else
    match s.handleForFD fd with
    | none => s.ret ebadf
    | some h =>
      let newFD := s.files.allocateFD s.kern.tty argument.toNat
      (s.installClone newFD h cloexec).ret (BitVec.ofInt 32 newFD)

def fcntl (s : KState) (fd : Int) (command argument : U32) : KState :=
  if command = fGetFD ∨ command = fGetFL ∨ command = fSetFD ∨ command = fSetFL then
    s.fcntlFlags fd command argument
  else if command ≠ fDupFD ∧ command ≠ fDupFDCloexec then s.ret einval
  else s.fcntlDup fd (command = fDupFDCloexec) argument

/-! ## Pipe -/

def oNonblock : U32 := 0x800

/-- The rollback of `pipe`. -/
def pipeRollback (s : KState) (readFD writeFD : Int) (readEnd writeEnd : Handle) : KState :=
  { s with
    files := (((s.files.remove readFD).remove writeFD).clearCloexec readFD).clearCloexec writeFD
    objs := (s.objs.close readEnd).close writeEnd }

def pipeReturn (s : KState) (addr : U32) (readFD writeFD : Int) (readEnd writeEnd : Handle) :
    KState :=
  match s.mem.write32 addr (BitVec.ofInt 32 readFD) with
  | .error _ => (s.pipeRollback readFD writeFD readEnd writeEnd).ret efault
  | .ok mem =>
    let s := { s with mem := mem }
    match s.mem.write32 (addr + 4) (BitVec.ofInt 32 writeFD) with
    | .error _ => (s.pipeRollback readFD writeFD readEnd writeEnd).ret efault
    | .ok mem => { s with mem := mem }.ret 0

def pipeInstall (s : KState) (readFD writeFD : Int) (nonblock cloexec : Bool) : KState :=
  let r := s.objs.newPipePair nonblock
  let files := (s.files.install readFD r.1).install writeFD r.2.1
  { s with
    files := if cloexec then (files.markCloexec readFD).markCloexec writeFD else files
    objs := r.2.2 }

def pipe (s : KState) (pipefdAddr flags : U32) : KState :=
  if flags &&& ~~~(oNonblock ||| oCloexec) ≠ 0 then s.ret einval
  else
    let nonblock : Bool := flags &&& oNonblock ≠ 0
    let r := s.objs.newPipePair nonblock
    let readFD := s.files.allocateFD s.kern.tty 0
    let writeFD := s.files.allocateFD s.kern.tty (readFD + 1)
    (s.pipeInstall readFD writeFD nonblock (flags &&& oCloexec ≠ 0)).pipeReturn pipefdAddr
      readFD writeFD r.1 r.2.1

/-! ## Open -/

def bytes (name : String) : List U8 := name.toList.map fun c => BitVec.ofNat 8 c.toNat

/-- An element taken into the result of `path.Clean`, the latest element first. -/
def cleanElem (rooted : Bool) (out : List (List U8)) (elem : List U8) : List (List U8) :=
  if elem = [] ∨ elem = bytes "." then out
  else if elem = bytes ".." then
    match out with
    | [] => if rooted then [] else [elem]
    | top :: rest => if top = elem then elem :: out else rest
  else elem :: out

/-- `path.Clean` -/
def cleanPath (name : List U8) : List U8 :=
  let rooted : Bool := name.head? = some 47
  let elems := ((name.splitOn 47).foldl (cleanElem rooted) []).reverse
  let joined := [(47 : U8)].intercalate elems
  if rooted then 47 :: joined else if joined = [] then bytes "." else joined

/-- `path.Join` of two elements. -/
def joinPath (a b : List U8) : List U8 :=
  if a = [] then (if b = [] then [] else cleanPath b)
  else if b = [] then cleanPath a
  else cleanPath (a ++ 47 :: b)

def guestPath (s : KState) (name : List U8) : List U8 :=
  if name.head? = some 47 then name else joinPath s.kern.cwd name

def openFlags (flags mode : U32) : OpenFlags :=
  { access := if flags &&& 3 = 1 then 1 else if flags &&& 3 = 2 then 2 else 0
    create := flags &&& 64 ≠ 0
    excl := flags &&& 128 ≠ 0
    trunc := flags &&& 512 ≠ 0
    append := flags &&& 1024 ≠ 0
    perm := mode &&& 0o777 }

/-- The handle `open` makes of a name that is not virtual. -/
def openResolved (host : Host) (tty : Option Nat) (o : Objects) (name path : List U8)
    (flags mode : U32) : Except U32 Handle × Objects :=
  if name = bytes "/dev/null" then (.ok .null, o)
  else if name = bytes "/dev/zero" then (.ok .zero, o)
  else if name = bytes "/dev/tty" then
    match tty with
    | none => (.error ebadf, o)
    | some t => (.ok (.tty t), o)
  else
    match host.openFile o.tick path (openFlags flags mode) with
    | .error err => (.error (if err = .notExist then enoent else efault), o.nextTick)
    | .ok () => let r := o.nextTick.newFile; (.ok r.1, r.2)

/-- The handle `open` makes of a name. -/
def openHandle (host : Host) (tty : Option Nat) (o : Objects) (name : List U8)
    (flags mode : U32) : Except U32 Handle × Objects :=
  match host.readVirtual o.tick name with
  | .error _ => (.error efault, o.nextTick)
  | .ok (some data) => let r := o.nextTick.newVirtual ⟨name, data, 0⟩; (.ok r.1, r.2)
  | .ok none =>
    let o := o.nextTick
    match host.resolve o.tick name with
    | .error _ => (.error efault, o.nextTick)
    | .ok path => openResolved host tty o.nextTick name path flags mode

/-- The handle that `open` has made, installed. -/
def openInstall (s : KState) (h : Handle) : KState :=
  let fd := s.files.allocateFD s.kern.tty 0
  { s with files := (s.files.install fd h).clearClosed fd }.ret (BitVec.ofInt 32 fd)

def «open» (host : Host) (s : KState) (pathAddr flags mode : U32) : KState :=
  match s.mem.readCString pathAddr 4096 with
  | none => s.ret efault
  | some name =>
    if s.kern.fs = false then s.ret efault
    else
      let r := openHandle host s.kern.tty s.objs (s.guestPath name) flags mode
      let s := { s with objs := r.2 }
      match r.1 with
      | .error e => s.ret e
      | .ok h => s.openInstall h

/-! ## Exec and exit -/

/-- A turn of the loop of `CloseCloexec`. -/
def closeCloexecAt (s : KState) (fd : Int) (cloexec : Bool) : KState :=
  if cloexec = false then s
  else
    let s :=
      match s.entry fd with
      | some h => { s with objs := s.objs.close h, files := s.files.remove fd }
      | none => s
    { s with files := (s.files.clearCloexec fd).clearClosed fd }

def closeCloexec (s : KState) : KState :=
  s.files.fdCloexec.entries.foldl (fun s e => s.closeCloexecAt e.1 e.2) s

/-- A turn of the loop of `CloseOnExit`. -/
def closeEntry (s : KState) (fd : Int) (h : Handle) : KState :=
  { s with objs := s.objs.close h, files := s.files.remove fd }

def closeOnExit (s : KState) : KState :=
  s.files.fds.entries.foldl (fun s e => s.closeEntry e.1 e.2) s

end KState

/-! ## Fork -/

/-- A turn of the first loop of `CloneForChild`. -/
def cloneEntry (acc : AList (fun _ : Int => Handle) × Objects) (e : Σ _ : Int, Handle) :
    AList (fun _ : Int => Handle) × Objects :=
  let r := acc.2.cloneHandle e.2
  (acc.1.insert e.1 r.1, r.2)

def Files.cloneForChild (f : Files) (o : Objects) : Files × Objects :=
  let r := f.fds.entries.foldl cloneEntry (∅, o)
  ({ f with fds := r.1 }, r.2)

def Kernel.cloneForChild (k : Kernel) (pid : U32) : Kernel :=
  { Kernel.new k.fs k.tty with
    pid := pid
    brk := k.brk
    heapStart := k.heapStart
    heapEnd := k.heapEnd
    tidAddress := k.tidAddress
    cwd := k.cwd
    signalMask := k.signalMask
    schedulerAware := k.schedulerAware }

/-- The kernel of `CloneForThread`, which then takes the tables of its parent. -/
def Kernel.cloneForThread (k : Kernel) (pid : U32) : Kernel :=
  { k.cloneForChild pid with thread := true }

end IshGo.Kernel
