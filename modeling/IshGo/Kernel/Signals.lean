/-
# `IshGo.Kernel.Signals` — signals and futexes

`internal/kernel/signal.go`, and from `syscall.go`: `TakePendingSignal`, `kill`,
`sigprocmask`, `rtSigaction` and the futex calls.

A signal frame is a list of words at fixed offsets.  Words are written one by one, and a
write that fails leaves the words before it.
-/
import IshGo.Kernel.State
import Mathlib.Algebra.Group.Nat.Defs

namespace IshGo.Kernel

open I386

/-! ## Pending signals -/

def signalBit (signal : Nat) : U64 := 1 <<< (signal - 1)

/-- The loop of `TakePendingSignal` over the signals that are left. -/
def firstSignal (available : U64) : Nat → Nat → Option Nat
  | 0, _ => none
  | n + 1, signal =>
    if available &&& signalBit signal = 0 then firstSignal available n (signal + 1)
    else some signal

def KState.takePendingSignal (s : KState) : Option (Nat × SignalAction) × KState :=
  match firstSignal (s.kern.pendingSignals &&& ~~~ s.kern.signalMask) 64 1 with
  | none => (none, s)
  | some signal =>
    let pending := s.kern.pendingSignals &&& ~~~ signalBit signal
    (some (signal, s.actions (BitVec.ofNat 32 signal)),
      { s with kern := { s.kern with pendingSignals := pending } })

def KState.kill (s : KState) (pid signal : U32) : KState :=
  if pid ≠ s.kern.pid ∧ pid ≠ 0 ∧ pid ≠ -1 then s.ret esrch
  else if signal > 64 then s.ret einval
  else if signal ≠ 0 then { s with kern := s.kern.queueSignal signal.toNat }.ret 0
  else s.ret 0

/-! ## Masks and actions -/

def readSignalSet (mem : Memory) (addr size : U32) : Option U64 :=
  if addr = 0 then some 0
  else if size < 4 ∨ size > 8 then none
  else
    match mem.read32 addr with
    | .error _ => none
    | .ok low =>
      if size = 4 then some (low.setWidth 64)
      else
        match mem.read32 (addr + 4) with
        | .error _ => none
        | .ok high => some (low.setWidth 64 ||| (high.setWidth 64 <<< 32))

/-- Words written one by one, each at its offset.  With the first error comes the offset
at which it happened. -/
def writeWords (mem : Memory) (base : U32) : List (U32 × U32) → Option (U32 × SpaceError) × Memory
  | [] => (none, mem)
  | (offset, value) :: rest =>
    match mem.write32 (base + offset) value with
    | .error e => (some (offset, e), mem)
    | .ok mem' => writeWords mem' base rest

def writeSignalSet (mem : Memory) (addr : U32) (mask : U64) (size : U32) : Bool × Memory :=
  if addr = 0 then (true, mem)
  else if size < 4 ∨ size > 8 then (false, mem)
  else
    let r := writeWords mem addr
      ((0, mask.setWidth 32) :: if size = 8 then [(4, (mask >>> 32).setWidth 32)] else [])
    (r.1.isNone, r.2)

/-- The mask that `sigprocmask` makes of the old one; `none` for an unknown `how`. -/
def changeMask (how : U32) (old set : U64) : Option U64 :=
  if how = 0 then some (old ||| set)
  else if how = 1 then some (old &&& ~~~ set)
  else if how = 2 then some set
  else none

def KState.sigprocmask (s : KState) (how setAddr oldAddr size : U32) (realtime : Bool) : KState :=
  if realtime ∧ size ≠ 8 then s.ret einval
  else
    let wordSize : U32 := if realtime then 8 else 4
    let r := writeSignalSet s.mem oldAddr s.kern.signalMask wordSize
    let s := { s with mem := r.2 }
    if r.1 = false then s.ret efault
    else if setAddr = 0 then s.ret 0
    else
      match readSignalSet s.mem setAddr wordSize with
      | none => s.ret efault
      | some set =>
        match changeMask how s.kern.signalMask set with
        | none => s.ret einval
        | some mask => { s with kern := { s.kern with signalMask := mask } }.ret 0

/-- The action that `rtSigaction` reads. -/
def readAction (mem : Memory) (addr : U32) : Option SignalAction :=
  match mem.read32 addr, mem.read32 (addr + 4), mem.read32 (addr + 8),
      readSignalSet mem (addr + 12) 8 with
  | .ok handler, .ok flags, .ok restorer, some mask => some ⟨handler, flags, restorer, mask⟩
  | _, _, _, _ => none

/-- The old action that `rtSigaction` writes. -/
def writeAction (mem : Memory) (addr : U32) (action : SignalAction) : Bool × Memory :=
  if addr = 0 then (true, mem)
  else
    let r := writeWords mem addr [(0, action.handler), (4, action.flags), (8, action.restorer)]
    if r.1.isSome then (false, r.2) else writeSignalSet r.2 (addr + 12) action.mask 8

def KState.rtSigaction (s : KState) (signal actionAddr oldActionAddr size : U32) : KState :=
  if signal = 0 ∨ signal > 64 ∨ signal = 9 ∨ signal = 19 ∨ size ≠ 8 then s.ret einval
  else
    let r := writeAction s.mem oldActionAddr (s.actions signal)
    let s := { s with mem := r.2 }
    if r.1 = false then s.ret efault
    else if actionAddr = 0 then s.ret 0
    else
      match readAction s.mem actionAddr with
      | none => s.ret efault
      | some action => { s with actions := fun i => if i = signal then action else s.actions i }.ret 0

/-! ## Frames -/

def signalFrameMagic : U32 := 0x49534847
def signalFrameVersion : U32 := 1
def signalFrameSize : U32 := 176
def saSigInfo : U32 := 0x00000004
def saNodefer : U32 := 0x40000000

/-- What `DeliverSignal` can fail with; the texts also name the signal. -/
inductive SignalError where
  | invalidHandler
  | sigInfo
  | noRestorer
  | stackUnderflow
  | addressOverflow
  | returnAddress (e : SpaceError)
  | argument (e : SpaceError)
  | write (e : SpaceError)
  deriving DecidableEq, Repr

def SignalError.ofWrite (offset : U32) (e : SpaceError) : SignalError :=
  if offset = 0 then .returnAddress e else if offset = 4 then .argument e else .write e

/-- The words of a frame, in the order in which they are written. -/
def frameWords (cpu : CPU) (mask : U64) (signal : Nat) (action : SignalAction) : List (U32 × U32) :=
  let number : U32 := BitVec.ofNat 32 signal
  let head : List U32 :=
    [action.restorer, number, signalFrameMagic, signalFrameVersion, number, cpu.eip, cpu.eflags,
      cpu.regs ESP, mask.setWidth 32, (mask >>> 32).setWidth 32, cpu.fsBase, cpu.gsBase,
      cpu.fsSelector.setWidth 32, cpu.gsSelector.setWidth 32, cpu.fpuTop.setWidth 32,
      cpu.fpuCount.setWidth 32, cpu.fpuStatus.setWidth 32, cpu.fpuControl.setWidth 32]
  let regs : List U32 := (List.range 8).map fun i => cpu.regs (BitVec.ofNat 3 i)
  let fpu : List U32 := (List.range 8).flatMap fun i =>
    let bits := cpu.fpu (BitVec.ofNat 3 i)
    [bits.setWidth 32, (bits >>> 32).setWidth 32]
  -- the words lie side by side: 18 of them, the registers from 72 on, the FPU from 104 on
  (head ++ regs ++ fpu).zipIdx.map fun w => (BitVec.ofNat 32 (4 * w.2), w.1)

def KState.deliverSignal (s : KState) (signal : Nat) (action : SignalAction) :
    Except SignalError Unit × KState :=
  let oldESP := s.cpu.regs ESP
  let frameBase := (oldESP - signalFrameSize - 16) &&& ~~~15
  if signal = 0 ∨ signal > 64 ∨ action.handler = 0 then (.error .invalidHandler, s)
  else if action.flags &&& saSigInfo ≠ 0 then (.error .sigInfo, s)
  else if action.restorer = 0 then (.error .noRestorer, s)
  else if oldESP < signalFrameSize + 32 then (.error .stackUnderflow, s)
  else if frameBase + signalFrameSize < frameBase then (.error .addressOverflow, s)
  else
    let r := writeWords s.mem frameBase (frameWords s.cpu s.kern.signalMask signal action)
    let s := { s with mem := r.2 }
    match r.1 with
    | some (offset, e) => (.error (.ofWrite offset e), s)
    | none =>
      let mask := s.kern.signalMask ||| action.mask
      let mask := if action.flags &&& saNodefer = 0 then mask ||| signalBit signal else mask
      let s := s.setReg ESP frameBase
      (.ok (), { s with
        cpu := { s.cpu with eip := action.handler }
        kern := { s.kern with signalMask := mask } })

/-- A frame begins at `base`. -/
def isFrame (mem : Memory) (base : U32) : Bool :=
  match mem.read32 (base + 8), mem.read32 (base + 12) with
  | .ok magic, .ok version => magic = signalFrameMagic ∧ version = signalFrameVersion
  | _, _ => false

/-- The frame that `rtSigreturn` finds. -/
def findFrame (mem : Memory) (esp : U32) : Option U32 :=
  (esp :: if esp ≥ 4 then [esp - 4] else []).find? (isFrame mem)

/-- The words at `offsets`, or none of them. -/
def readWords (mem : Memory) (base : U32) (offsets : List Nat) : Option (List U32) :=
  offsets.mapM fun offset => (mem.read32 (base + BitVec.ofNat 32 offset)).toOption

/-- The CPU that a frame describes, and the mask; `none` if it is refused. -/
def restoreFrame (mem : Memory) (base : U32) (cpu : CPU) : Option (CPU × U64) :=
  match readWords mem base [32, 36, 20, 24, 28, 40, 44, 48, 52, 56, 60, 64, 68],
      readWords mem base ((List.range 8).map (72 + · * 4)),
      readWords mem base ((List.range 8).map (104 + · * 8)),
      readWords mem base ((List.range 8).map (108 + · * 8)) with
  | some [maskLo, maskHi, eip, eflags, esp, fsBase, gsBase, fsSel, gsSel, top, count, status, control],
      some regs, some fpuLo, some fpuHi =>
      if esp = 0 ∨ top > 7 ∨ count > 8 ∨ fsSel > 0xffff ∨ gsSel > 0xffff then none
      else
        some ({ cpu with
          regs := fun r => if r = ESP then esp else regs.getD r.toNat 0
          eip := eip
          eflags := eflags
          halted := false
          fsBase := fsBase
          gsBase := gsBase
          fsSelector := fsSel.setWidth 16
          gsSelector := gsSel.setWidth 16
          fpu := fun r =>
            (fpuLo.getD r.toNat 0).setWidth 64 ||| ((fpuHi.getD r.toNat 0).setWidth 64 <<< 32)
          fpuTop := top.setWidth 8
          fpuCount := count.setWidth 8
          fpuStatus := status.setWidth 16
          fpuControl := control.setWidth 16 },
          maskLo.setWidth 64 ||| (maskHi.setWidth 64 <<< 32))
  | _, _, _, _ => none

/-- `rt_sigreturn`: `rtSigreturn`, and `-EFAULT` if it fails. -/
def KState.rtSigreturn (s : KState) : KState :=
  match findFrame s.mem (s.cpu.regs ESP) with
  | none => s.ret efault
  | some base =>
    match restoreFrame s.mem base s.cpu with
    | none => s.ret efault
    | some (cpu, mask) => { s with cpu := cpu, kern := { s.kern with signalMask := mask } }

/-! ## Futexes -/

namespace Futexes

def add (f : Futexes) (uaddr : U32) : Nat × Futexes :=
  (f.next, { f with
    waiters := Function.update f.waiters uaddr (f.waiters uaddr ++ [f.next])
    closed := Function.update f.closed f.next false
    next := f.next + 1 })

/-- `removeFutexWaiter` -/
def remove (f : Futexes) (uaddr : U32) (waiter : Nat) : Futexes :=
  { f with waiters := Function.update f.waiters uaddr ((f.waiters uaddr).erase waiter) }

/-- The first `limit` channels closed. -/
def wake (f : Futexes) (uaddr : U32) (limit : Nat) : Futexes :=
  { f with
    waiters := Function.update f.waiters uaddr ((f.waiters uaddr).drop limit)
    closed := fun c => f.closed c || c ∈ (f.waiters uaddr).take limit }

end Futexes

namespace KState

/-- The deadline that a futex call reads, or the error it returns. -/
def futexDeadline (s : KState) (host : Host) (timeoutAddr : U32) : Except U32 (Option Nat) :=
  if timeoutAddr = 0 then .ok none
  else
    match s.mem.read32 timeoutAddr, s.mem.read32 (timeoutAddr + 4) with
    | .ok sec, .ok nsec =>
      if nsec ≥ 1000000000 then .error efault
      else if sec.toNat > (2 ^ 63 - 1) / 1000000000 then .error etimedout
      else .ok (some (host.now s.objs.tick + sec.toNat * 1000000000 + nsec.toNat))
    | _, _ => .error efault

def futexHostWait (s : KState) (host : Host) (uaddr : U32) (waiter : Nat) : KState :=
  let wakeup := host.futexWait s.objs.tick
  let s := { s with objs := s.objs.nextTick }
  match wakeup with
  | .woken => s.ret 0
  | .interrupted => { s with futex := s.futex.remove uaddr waiter }.ret eintr
  | .timedOut => { s with futex := s.futex.remove uaddr waiter }.ret etimedout

/-- `FUTEX_WAIT` -/
def futexWait (s : KState) (host : Host) (uaddr value timeoutAddr : U32) : KState :=
  match s.mem.read32 uaddr with
  | .error _ => s.ret efault
  | .ok current =>
    if current ≠ value then s.ret eagain
    else
      match s.futexDeadline host timeoutAddr with
      | .error e => s.ret e
      | .ok deadline =>
        let r := s.futex.add uaddr
        let s := { s with futex := r.2, objs := s.objs.nextTick }
        if s.kern.schedulerAware = false then s.futexHostWait host uaddr r.1
        else if s.kern.blockedFutex ≠ none then
          { s with futex := s.futex.remove uaddr r.1 }.ret eagain
        else { s with kern := { s.kern with blockedFutex := some ⟨uaddr, r.1, deadline⟩ } }

/-- `FUTEX_WAKE` -/
def futexWake (s : KState) (uaddr value : U32) : KState :=
  let limit := min value.toNat (s.futex.waiters uaddr).length
  { s with futex := s.futex.wake uaddr limit }.ret (BitVec.ofNat 32 limit)

/-- `futex` -/
def futexCall (s : KState) (host : Host) (uaddr op value timeoutAddr : U32) : KState :=
  if uaddr &&& 3 ≠ 0 then s.ret einval
  else if op &&& ~~~128 = 0 then s.futexWait host uaddr value timeoutAddr
  else if op &&& ~~~128 = 1 then s.futexWake uaddr value
  else s.ret enosys

/-- The futex wait is over, and returns `v`. -/
def futexDone (s : KState) (b : FutexBlock) (v : U32) : KState :=
  { s with
    futex := s.futex.remove b.uaddr b.waiter
    kern := { s.kern with blockedFutex := none } }.ret v

/-- `TryResumeBlockedFutex`; whether the task goes on. -/
def tryResumeBlockedFutex (s : KState) (host : Host) : Bool × KState :=
  match s.kern.blockedFutex with
  | none => (true, s)
  | some b =>
    let now := host.now s.objs.tick
    let s := { s with objs := s.objs.nextTick }
    if b.deadline.any (· ≤ now) then (true, s.futexDone b etimedout)
    else if s.futex.closed b.waiter then (true, s.futexDone b 0)
    else (false, s)

end KState

end IshGo.Kernel
