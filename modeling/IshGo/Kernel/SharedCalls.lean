/-
# `IshGo.Kernel.SharedCalls` — calls on what threads share

`brk`, `chdir`, `getcwd`, `open`, `rt_sigaction`, `dup2` and `close`, and what each of them
reads.  Memory, descriptors, actions and objects are reached through pointers; the break and
the working directory are fields of the kernel, of which `CloneForThread` makes a copy.
-/
import IshGo.Kernel.Break
import IshGo.Kernel.Descriptors
import IshGo.Kernel.Pending

namespace IshGo.Kernel

open I386 Lib

variable {s t : KState}

/-! ## The working directory -/

/-- `chdir`.  `isDir` is what `FS.Stat` says: whether there is a directory of that name. -/
def KState.chdir (isDir : (tick : Nat) → List U8 → Bool) (s : KState) (addr : U32) : KState :=
  match s.mem.readCString addr 4096 with
  | none => s.ret efault
  | some name =>
    if s.kern.fs = false then s.ret efault
    else
      let t := { s with objs := s.objs.nextTick }
      if isDir s.objs.tick (s.guestPath name) then
        { t with kern := { t.kern with cwd := s.guestPath name } }.ret 0
      else t.ret enoent

def KState.getcwd (s : KState) (addr size : U32) : KState :=
  let cwd := s.kern.cwd ++ [0]
  if BitVec.ofNat 32 cwd.length > size then s.ret efault
  else
    match s.mem.writeBytes addr cwd with
    | .error _ => s.ret efault
    | .ok mem => { s with mem := mem }.ret addr

/-! ## The calls -/

inductive SharedCall where
  | brk (requested : U32)
  | chdir (addr : U32)
  | getcwd (addr size : U32)
  | open (pathAddr flags mode : U32)
  | rtSigaction (signal actionAddr oldActionAddr size : U32)
  | dup2 (oldFD newFD : Int)
  | close (fd : Int)

def SharedCall.run (host : Host) (isDir : Nat → List U8 → Bool) (s : KState) : SharedCall → KState
  | brk requested => s.brk requested
  | chdir addr => s.chdir isDir addr
  | getcwd addr size => s.getcwd addr size
  | «open» pathAddr flags mode => KState.open host s pathAddr flags mode
  | rtSigaction signal actionAddr oldActionAddr size =>
    s.rtSigaction signal actionAddr oldActionAddr size
  | dup2 oldFD newFD => s.dup2 oldFD newFD
  | close fd => s.close fd

structure Alike (s t : KState) : Prop where
  mem : t.mem = s.mem
  files : t.files = s.files
  actions : t.actions = s.actions
  objs : t.objs = s.objs
  fs : t.kern.fs = s.kern.fs
  tty : t.kern.tty = s.kern.tty

structure SameReturn (s t : KState) : Prop extends Alike s t where
  eax : t.cpu.regs EAX = s.cpu.regs EAX

structure SameCopies (s t : KState) : Prop where
  brk : t.kern.brk = s.kern.brk
  heapStart : t.kern.heapStart = s.kern.heapStart
  heapEnd : t.kern.heapEnd = s.kern.heapEnd
  cwd : t.kern.cwd = s.kern.cwd

/-- The copies are the same as far as the call looks at them: `brk` at the break, `getcwd` at the
working directory, `chdir` and `open` at the name that they make with it. -/
def SharedCall.Current (s t : KState) : SharedCall → Prop
  | brk _ => t.kern.brk = s.kern.brk ∧ t.kern.heapStart = s.kern.heapStart ∧
      t.kern.heapEnd = s.kern.heapEnd
  | getcwd _ _ => t.kern.cwd = s.kern.cwd
  | chdir addr | «open» addr _ _ =>
    ∀ name, s.mem.readCString addr 4096 = some name → t.guestPath name = s.guestPath name
  | rtSigaction _ _ _ _ | dup2 _ _ | close _ => True

/-- The call has left the same break, or the same working directory. -/
def SharedCall.Leaves (s t : KState) : SharedCall → Prop
  | brk _ => t.kern.brk = s.kern.brk ∧ t.kern.heapStart = s.kern.heapStart ∧
      t.kern.heapEnd = s.kern.heapEnd
  | chdir _ => s.cpu.regs EAX = 0 → t.kern.cwd = s.kern.cwd
  | getcwd _ _ | «open» _ _ _ | rtSigaction _ _ _ _ | dup2 _ _ | close _ => True

theorem Alike.refl (s : KState) : Alike s s := ⟨rfl, rfl, rfl, rfl, rfl, rfl⟩

section
variable (h : Alike s t)
include h

theorem Alike.ret (v : U32) : SameReturn (s.ret v) (t.ret v) :=
  ⟨⟨h.mem, h.files, h.actions, h.objs, h.fs, h.tty⟩, rfl⟩

theorem Alike.with_mem (m : Memory) : Alike { s with mem := m } { t with mem := m } :=
  ⟨rfl, h.files, h.actions, h.objs, h.fs, h.tty⟩

theorem Alike.with_objs (o : Objects) : Alike { s with objs := o } { t with objs := o } :=
  ⟨h.mem, h.files, h.actions, rfl, h.fs, h.tty⟩

theorem Alike.with_cwd (cwd : List U8) :
    Alike { s with kern := { s.kern with cwd := cwd } } { t with kern := { t.kern with cwd := cwd } } :=
  ⟨h.mem, h.files, h.actions, h.objs, h.fs, h.tty⟩

theorem Alike.with_files (f : Files) : Alike { s with files := f } { t with files := f } :=
  ⟨h.mem, rfl, h.actions, h.objs, h.fs, h.tty⟩

theorem Alike.with_actions (a : U32 → SignalAction) : Alike { s with actions := a } { t with actions := a } :=
  ⟨h.mem, h.files, rfl, h.objs, h.fs, h.tty⟩

theorem Alike.entry (fd : Int) : t.entry fd = s.entry fd := by
  rw [KState.entry, KState.entry, h.files]

theorem Alike.handleForFD (fd : Int) : t.handleForFD fd = s.handleForFD fd := by
  rw [KState.handleForFD, KState.handleForFD, h.files, h.tty]

theorem Alike.brk (requested : U32) (hcurrent : (SharedCall.brk requested).Current s t) :
    SameReturn (s.brk requested) (t.brk requested) ∧
      (SharedCall.brk requested).Leaves (s.brk requested) (t.brk requested) := by
  obtain ⟨hbrk, hstart, hend⟩ := hcurrent
  unfold KState.brk
  rw [hbrk, hstart, hend, h.mem]
  split
  · exact ⟨h.ret _, hbrk, hstart, hend⟩
  split
  · exact ⟨h.ret _, hbrk, hstart, hend⟩
  split
  · exact ⟨h.ret _, hbrk, hstart, hend⟩
  generalize moveHeap s.mem s.kern.heapEnd (pageAlignUp s.kern.brk) (pageAlignUp requested) = r
  obtain ⟨refused, mem⟩ := r
  have hmem := h.with_mem mem
  cases refused with
  | some e => exact ⟨hmem.ret _, hbrk, hstart, hend⟩
  | none =>
    have hset : Alike ({ s with mem := mem }.setBreak requested)
        ({ t with mem := mem }.setBreak requested) :=
      ⟨rfl, h.files, h.actions, h.objs, h.fs, h.tty⟩
    refine ⟨hset.ret _, rfl, hstart, ?_⟩
    show (if requested > t.kern.heapEnd then _ else t.kern.heapEnd) = _
    rw [hend]
    rfl

end

theorem Alike.chdir (isDir : Nat → List U8 → Bool) (h : Alike s t) (addr : U32)
    (hcurrent : (SharedCall.chdir addr).Current s t) :
    SameReturn (s.chdir isDir addr) (t.chdir isDir addr) ∧
      (SharedCall.chdir addr).Leaves (s.chdir isDir addr) (t.chdir isDir addr) := by
  have hread : t.mem.readCString addr 4096 = s.mem.readCString addr 4096 := by rw [h.mem]
  unfold KState.chdir SharedCall.Leaves
  rw [hread]
  cases hname : s.mem.readCString addr 4096 with
  | none => exact ⟨h.ret _, fun hzero => absurd hzero (show efault ≠ 0 by decide)⟩
  | some name =>
    dsimp only
    by_cases hfs : s.kern.fs = false
    · rw [if_pos (h.fs.trans hfs), if_pos hfs]
      exact ⟨h.ret _, fun hzero => absurd hzero (show efault ≠ 0 by decide)⟩
    rw [if_neg fun hf => hfs (h.fs.symm.trans hf), if_neg hfs, hcurrent name hname, h.objs]
    have htick := h.with_objs s.objs.nextTick
    cases isDir s.objs.tick (s.guestPath name) with
    | false => exact ⟨htick.ret _, fun hzero => absurd hzero (show enoent ≠ 0 by decide)⟩
    | true => exact ⟨(htick.with_cwd _).ret _, fun _ => rfl⟩

theorem Alike.getcwd (h : Alike s t) (addr size : U32) (hcurrent : t.kern.cwd = s.kern.cwd) :
    SameReturn (s.getcwd addr size) (t.getcwd addr size) := by
  unfold KState.getcwd
  rw [hcurrent, h.mem]
  dsimp only
  split
  · exact h.ret _
  cases s.mem.writeBytes addr (s.kern.cwd ++ [0]) with
  | error e => exact h.ret _
  | ok mem => exact (h.with_mem mem).ret _

theorem Alike.openInstall (h : Alike s t) (f : Handle) : SameReturn (s.openInstall f) (t.openInstall f) := by
  unfold KState.openInstall
  rw [h.files, h.tty]
  exact (h.with_files _).ret _

theorem Alike.open (host : Host) (h : Alike s t) (pathAddr flags mode : U32)
    (hcurrent : (SharedCall.open pathAddr flags mode).Current s t) :
    SameReturn (KState.open host s pathAddr flags mode) (KState.open host t pathAddr flags mode) := by
  have hread : t.mem.readCString pathAddr 4096 = s.mem.readCString pathAddr 4096 := by rw [h.mem]
  unfold KState.open
  rw [hread]
  cases hname : s.mem.readCString pathAddr 4096 with
  | none => exact h.ret _
  | some name =>
    dsimp only
    rw [h.fs, hcurrent name hname, h.objs, h.tty]
    split
    · exact h.ret _
    generalize KState.openHandle host s.kern.tty s.objs (s.guestPath name) flags mode = r
    obtain ⟨opened, objs⟩ := r
    have hobjs := h.with_objs objs
    cases opened with
    | error e => exact hobjs.ret _
    | ok f => exact hobjs.openInstall f

theorem Alike.rtSigaction (h : Alike s t) (signal actionAddr oldActionAddr size : U32) :
    SameReturn (s.rtSigaction signal actionAddr oldActionAddr size)
      (t.rtSigaction signal actionAddr oldActionAddr size) := by
  unfold KState.rtSigaction
  rw [h.mem, h.actions]
  dsimp only
  split
  · exact h.ret _
  generalize writeAction s.mem oldActionAddr (s.actions signal) = r
  obtain ⟨written, mem⟩ := r
  have hmem := (h.with_mem mem).with_actions s.actions
  dsimp only
  cases written with
  | false => exact hmem.ret _
  | true =>
    by_cases haddr : actionAddr = 0
    · rw [if_pos haddr, if_pos haddr]
      exact hmem.ret _
    rw [if_neg haddr, if_neg haddr]
    cases readAction mem actionAddr with
    | none => exact hmem.ret _
    | some action => exact (hmem.with_actions _).ret _

theorem Alike.closeReplaced (h : Alike s t) (fd : Int) (f : Handle) :
    Alike (s.closeReplaced fd f) (t.closeReplaced fd f) := by
  unfold KState.closeReplaced
  rw [h.entry, h.objs]
  split
  · split
    · exact h.with_objs _
    · exact h
  · exact h

theorem Alike.installClone (h : Alike s t) (fd : Int) (f : Handle) (cloexec : Bool) :
    Alike (s.installClone fd f cloexec) (t.installClone fd f cloexec) := by
  unfold KState.installClone
  rw [h.objs, h.files]
  exact ⟨h.mem, rfl, h.actions, rfl, h.fs, h.tty⟩

theorem Alike.dup2 (h : Alike s t) (oldFD newFD : Int) :
    SameReturn (s.dup2 oldFD newFD) (t.dup2 oldFD newFD) := by
  unfold KState.dup2 KState.dupResult KState.dupInstall KState.validFD
  rw [h.handleForFD]
  split
  · exact h.ret _
  split
  · split
    · exact h.ret _
    · exact h.ret _
  split
  · exact h.ret _
  split
  · exact h.ret _
  · exact ((h.closeReplaced newFD _).installClone newFD _ _).ret _

theorem Alike.close (h : Alike s t) (fd : Int) : SameReturn (s.close fd) (t.close fd) := by
  unfold KState.close KState.closeResult KState.closeDescriptor
  rw [h.entry]
  cases s.entry fd with
  | some f =>
    have hfiles := h.with_files (((s.files.remove fd).clearClosed fd).clearCloexec fd)
    simp only [if_true, h.files, h.objs]
    exact (hfiles.with_objs (s.objs.close f)).ret 0
  | none =>
    simp only [Bool.false_eq_true, if_false, KState.closeTTY]
    rw [h.files, h.tty]
    split
    · exact h.ret _
    · exact (h.with_files _).ret _

theorem SharedCall.same (host : Host) (isDir : Nat → List U8 → Bool) (h : Alike s t) (c : SharedCall)
    (hcurrent : c.Current s t) :
    SameReturn (c.run host isDir s) (c.run host isDir t) ∧
      c.Leaves (c.run host isDir s) (c.run host isDir t) := by
  cases c with
  | brk requested => exact h.brk requested hcurrent
  | chdir addr => exact h.chdir isDir addr hcurrent
  | getcwd addr size => exact ⟨h.getcwd addr size hcurrent, trivial⟩
  | «open» pathAddr flags mode => exact ⟨h.open host pathAddr flags mode hcurrent, trivial⟩
  | rtSigaction signal actionAddr oldActionAddr size =>
    exact ⟨h.rtSigaction signal actionAddr oldActionAddr size, trivial⟩
  | dup2 oldFD newFD => exact ⟨h.dup2 oldFD newFD, trivial⟩
  | close fd => exact ⟨h.close fd, trivial⟩

/-! ## The copies -/

theorem brk_kern (s : KState) (requested : U32) :
    ∃ b e, (s.brk requested).kern = { s.kern with brk := b, heapEnd := e } := by
  unfold KState.brk
  split
  · exact ⟨_, _, rfl⟩
  split
  · exact ⟨_, _, rfl⟩
  split
  · exact ⟨_, _, rfl⟩
  dsimp only
  split
  · exact ⟨_, _, rfl⟩
  · exact ⟨_, _, rfl⟩

theorem chdir_kern (isDir : Nat → List U8 → Bool) (s : KState) (addr : U32) :
    (∃ d, (s.chdir isDir addr).kern = { s.kern with cwd := d }) ∧
      ((s.chdir isDir addr).cpu.regs EAX ≠ 0 → (s.chdir isDir addr).kern = s.kern) := by
  unfold KState.chdir
  split
  · exact ⟨⟨_, rfl⟩, fun _ => rfl⟩
  split
  · exact ⟨⟨_, rfl⟩, fun _ => rfl⟩
  split
  · exact ⟨⟨_, rfl⟩, fun hne => absurd rfl hne⟩
  · exact ⟨⟨_, rfl⟩, fun _ => rfl⟩

theorem getcwd_kern (s : KState) (addr size : U32) : (s.getcwd addr size).kern = s.kern := by
  unfold KState.getcwd
  dsimp only
  split
  · rfl
  split
  · rfl
  · rfl

theorem open_kern (host : Host) (s : KState) (pathAddr flags mode : U32) :
    (KState.open host s pathAddr flags mode).kern = s.kern := by
  unfold KState.open
  split
  · rfl
  split
  · rfl
  dsimp only
  split
  · rfl
  · rfl

theorem dup2_kern (s : KState) (oldFD newFD : Int) : (s.dup2 oldFD newFD).kern = s.kern := by
  unfold KState.dup2 KState.dupResult KState.dupInstall KState.closeReplaced
  repeat' split
  all_goals rfl

theorem close_kern (s : KState) (fd : Int) : (s.close fd).kern = s.kern := by
  unfold KState.close KState.closeResult KState.closeDescriptor KState.closeTTY
  dsimp only
  repeat' split
  all_goals rfl

/-- What a call can change of its kernel: the copies. -/
theorem SharedCall.run_kern (host : Host) (isDir : Nat → List U8 → Bool) (c : SharedCall)
    (s : KState) : ∃ b e d, (c.run host isDir s).kern = { s.kern with brk := b, heapEnd := e, cwd := d } := by
  cases c with
  | brk requested =>
    obtain ⟨b, e, h⟩ := brk_kern s requested
    exact ⟨b, e, s.kern.cwd, h⟩
  | chdir addr =>
    obtain ⟨d, h⟩ := (chdir_kern isDir s addr).1
    exact ⟨s.kern.brk, s.kern.heapEnd, d, h⟩
  | getcwd addr size => exact ⟨_, _, _, getcwd_kern s addr size⟩
  | «open» pathAddr flags mode => exact ⟨_, _, _, open_kern host s pathAddr flags mode⟩
  | rtSigaction signal actionAddr oldActionAddr size =>
    exact ⟨_, _, _, kern_rtSigaction s signal actionAddr oldActionAddr size⟩
  | dup2 oldFD newFD => exact ⟨_, _, _, dup2_kern s oldFD newFD⟩
  | close fd => exact ⟨_, _, _, close_kern s fd⟩

theorem SameCopies.refl (s : KState) : SameCopies s s := ⟨rfl, rfl, rfl, rfl⟩

theorem SameCopies.symm (h : SameCopies s t) : SameCopies t s :=
  ⟨h.brk.symm, h.heapStart.symm, h.heapEnd.symm, h.cwd.symm⟩

theorem SameCopies.trans {u : KState} (h : SameCopies s t) (h' : SameCopies t u) : SameCopies s u :=
  ⟨h'.brk.trans h.brk, h'.heapStart.trans h.heapStart, h'.heapEnd.trans h.heapEnd, h'.cwd.trans h.cwd⟩

theorem SameCopies.of_kern {s' t' : KState} (h : SameCopies s t) (hs : s'.kern = s.kern)
    (ht : t'.kern = t.kern) : SameCopies s' t' := by
  refine ⟨?_, ?_, ?_, ?_⟩
  · rw [hs, ht, h.brk]
  · rw [hs, ht, h.heapStart]
  · rw [hs, ht, h.heapEnd]
  · rw [hs, ht, h.cwd]

theorem SameCopies.current (h : SameCopies s t) (c : SharedCall) : c.Current s t := by
  have hpath (name : List U8) : t.guestPath name = s.guestPath name := by
    rw [KState.guestPath, KState.guestPath, h.cwd]
  cases c with
  | brk requested => exact ⟨h.brk, h.heapStart, h.heapEnd⟩
  | chdir addr => exact fun name _ => hpath name
  | getcwd addr size => exact h.cwd
  | «open» pathAddr flags mode => exact fun name _ => hpath name
  | rtSigaction | dup2 | close => trivial

theorem SameCopies.run (host : Host) (isDir : Nat → List U8 → Bool) (h : Alike s t)
    (hcopies : SameCopies s t) (c : SharedCall) : SameCopies (c.run host isDir s) (c.run host isDir t) := by
  obtain ⟨hreturn, hleaves⟩ := c.same host isDir h (hcopies.current c)
  cases c with
  | brk requested =>
    obtain ⟨hbrk, hstart, hend⟩ := hleaves
    obtain ⟨_, _, hs⟩ := brk_kern s requested
    obtain ⟨_, _, ht⟩ := brk_kern t requested
    refine ⟨hbrk, hstart, hend, ?_⟩
    show (t.brk requested).kern.cwd = (s.brk requested).kern.cwd
    rw [hs, ht, hcopies.cwd]
  | chdir addr =>
    obtain ⟨⟨_, hs⟩, hs'⟩ := chdir_kern isDir s addr
    obtain ⟨⟨_, ht⟩, ht'⟩ := chdir_kern isDir t addr
    by_cases hzero : (s.chdir isDir addr).cpu.regs EAX = 0
    · refine ⟨?_, ?_, ?_, hleaves hzero⟩
      · show (t.chdir isDir addr).kern.brk = (s.chdir isDir addr).kern.brk
        rw [hs, ht, hcopies.brk]
      · show (t.chdir isDir addr).kern.heapStart = (s.chdir isDir addr).kern.heapStart
        rw [hs, ht, hcopies.heapStart]
      · show (t.chdir isDir addr).kern.heapEnd = (s.chdir isDir addr).kern.heapEnd
        rw [hs, ht, hcopies.heapEnd]
    · have hzero' : (t.chdir isDir addr).cpu.regs EAX ≠ 0 := fun hz => hzero (hreturn.eax.symm.trans hz)
      exact hcopies.of_kern (hs' hzero) (ht' hzero')
  | getcwd addr size => exact hcopies.of_kern (getcwd_kern s addr size) (getcwd_kern t addr size)
  | «open» pathAddr flags mode =>
    exact hcopies.of_kern (open_kern host s pathAddr flags mode) (open_kern host t pathAddr flags mode)
  | rtSigaction signal actionAddr oldActionAddr size =>
    exact hcopies.of_kern (kern_rtSigaction s signal actionAddr oldActionAddr size)
      (kern_rtSigaction t signal actionAddr oldActionAddr size)
  | dup2 oldFD newFD => exact hcopies.of_kern (dup2_kern s oldFD newFD) (dup2_kern t oldFD newFD)
  | close fd => exact hcopies.of_kern (close_kern s fd) (close_kern t fd)

end IshGo.Kernel
