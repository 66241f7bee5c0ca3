/-
# `IshGo.Kernel.Marked` — system calls do not look at pending signals

`s.mark m` is the state `s` in which the signals of `m` are pending too.  Only
`TakePendingSignal` reads `pendingSignals`, and only `queueSignal` adds to it: every request
does in `s.mark m` what it does in `s`.  `TakePendingSignal` takes in `s.mark m` a signal of `m`,
or it does what it does in `s`.
-/
import IshGo.Kernel.Pending
import IshGo.Kernel.Syscall
import IshGo.Kernel.Unnoticed

set_option linter.dupNamespace false

namespace IshGo.Kernel

open I386 Lib KState Commutes

variable {k : Nat}

/-- The signals of `m` are pending. -/
def Kernel.mark (m : U64) (k : Kernel) : Kernel := { k with pendingSignals := k.pendingSignals ||| m }

def KState.mark (m : U64) (s : KState) : KState := { s with kern := s.kern.mark m }

section Fields
variable (m : U64) (s : KState)

@[simp] theorem cpu_mark : (s.mark m).cpu = s.cpu := rfl
@[simp] theorem mem_mark : (s.mark m).mem = s.mem := rfl
@[simp] theorem files_mark : (s.mark m).files = s.files := rfl
@[simp] theorem actions_mark : (s.mark m).actions = s.actions := rfl
@[simp] theorem objs_mark : (s.mark m).objs = s.objs := rfl
@[simp] theorem futex_mark : (s.mark m).futex = s.futex := rfl
@[simp] theorem fs_mark : (s.mark m).kern.fs = s.kern.fs := rfl
@[simp] theorem tty_mark : (s.mark m).kern.tty = s.kern.tty := rfl
@[simp] theorem pid_mark : (s.mark m).kern.pid = s.kern.pid := rfl
@[simp] theorem signalMask_mark : (s.mark m).kern.signalMask = s.kern.signalMask := rfl
@[simp] theorem blockedFutex_mark : (s.mark m).kern.blockedFutex = s.kern.blockedFutex := rfl
@[simp] theorem entry_mark (fd : Int) : (s.mark m).entry fd = s.entry fd := rfl
@[simp] theorem handleForFD_mark (fd : Int) : (s.mark m).handleForFD fd = s.handleForFD fd := rfl
@[simp] theorem validFD_mark (fd : Int) : (s.mark m).validFD fd = s.validFD fd := rfl
@[simp] theorem guestPath_mark (name : List U8) : (s.mark m).guestPath name = s.guestPath name := rfl

end Fields

def MissesMark (m : U64) (f : KState → KState) : Prop := ∀ s, f (s.mark m) = (f s).mark m

variable {m : U64}

theorem MissesMark.update {f : KState → KState} (h : MissesMark m f) : Commutes (mark m) (update f) where
  commutes s := by
    show EStateM.Result.ok () (f (s.mark m)) = .ok () ((f s).mark m)
    rw [h s]

theorem Kernel.mark_queueSignal (k : Kernel) (signal : Nat) :
    (k.mark m).queueSignal signal = (k.queueSignal signal).mark m := by
  unfold Kernel.queueSignal
  split
  · rfl
  · simp only [Kernel.mark, BitVec.or_assoc, BitVec.or_comm m]

/-! ## Reads, writes and seeks -/

instance : Unnoticed (Kernel.mark m) := ⟨fun _ => rfl, Kernel.mark_queueSignal⟩

instance {α : Type} (x : KernelM α) [h : Commutes (onKern (Kernel.mark m)) x] :
    Commutes (mark m) x := h

instance (b : PipeBlock) : Commutes (mark m) (blockPipe b) where
  commutes s := by
    show (match s.kern.blockedPipe with | none => _ | some _ => _) = _
    unfold blockPipe
    cases s.kern.blockedPipe with
    | none => rfl
    | some _ => rfl

instance (addr value : U32) : Commutes (mark m) (memWrite32 addr value) := by
  unfold memWrite32
  infer_instance

instance (host : Host) (fd : Int) (addr count : U32) : Commutes (mark m) (handleRead host fd addr count) := by
  unfold handleRead
  refine get_bind (fun _ => rfl) fun s => ?_
  split <;> infer_instance

instance (r : Transfer) : Commutes (mark m) (retWrite r) := by
  unfold retWrite
  split <;> infer_instance

instance (r : Transfer) : Commutes (mark m) (retNonblocking r) := by
  unfold retNonblocking
  split <;> infer_instance

instance (host : Host) (fd : Int) (addr count : U32) (data : List U8) :
    Commutes (mark m) (handleWriteData host fd addr count data) := by
  unfold handleWriteData
  refine get_bind (fun _ => rfl) fun s => ?_
  split <;> infer_instance

instance (host : Host) (fd : Int) (addr count : U32) :
    Commutes (mark m) (handleWrite host fd addr count) := by
  unfold handleWrite
  refine get_bind (fun _ => rfl) fun s => ?_
  split <;> infer_instance

instance (host : Host) (fd offset whence : Int) : Commutes (mark m) (lseek host fd offset whence) := by
  unfold lseek
  refine get_bind (fun _ => rfl) fun s => ?_
  split
  · infer_instance
  · refine @bind _ _ _ _ _ _ _ _ fun r => ?_
    split <;> infer_instance

instance (host : Host) (fd : Int) (offset : U64) (resultAddr : U32) (whence : Int) :
    Commutes (mark m) (llseek host fd offset resultAddr whence) := by
  unfold llseek
  refine get_bind (fun _ => rfl) fun s => ?_
  split
  · infer_instance
  · refine @bind _ _ _ _ _ _ _ _ fun r => ?_
    split <;> infer_instance

instance (addr : U32) (info : FileInfo) : Commutes (mark m) (writeStat addr info) := by
  unfold writeStat
  infer_instance

instance (host : Host) (fd : Int) (statAddr : U32) : Commutes (mark m) (statFD host fd statAddr) := by
  unfold statFD
  refine get_bind (fun _ => rfl) fun s => ?_
  split
  · infer_instance
  · refine @bind _ _ _ _ _ _ _ _ fun r => ?_
    split <;> infer_instance

instance (host : Host) (c : IOCall) : Commutes (mark m) (c.run host) := by
  cases c with
  | readv fd iov count => exact inferInstanceAs (Commutes _ (handleReadvLoop host fd iov _ 0 0))
  | writev fd iov count => exact inferInstanceAs (Commutes _ (handleWritevLoop host fd iov _ 0 0))
  | _ => unfold IOCall.run; infer_instance

/-! ## The table -/

theorem missesMark_open (host : Host) (pathAddr flags mode : U32) :
    MissesMark m (KState.open host · pathAddr flags mode) := by
  intro s
  dsimp only [KState.open]
  rw [mem_mark]
  cases s.mem.readCString pathAddr 4096 with
  | none => rfl
  | some name =>
    dsimp only
    rw [fs_mark, tty_mark, objs_mark, guestPath_mark]
    obtain ⟨opened, objs⟩ := openHandle host s.kern.tty s.objs (s.guestPath name) flags mode
    cases s.kern.fs with
    | false => rfl
    | true =>
      cases opened with
      | error e => rfl
      | ok f => rfl

theorem mark_pipeReturn (s : KState) (addr : U32) (readFD writeFD : Int) (readEnd writeEnd : Handle) :
    (s.mark m).pipeReturn addr readFD writeFD readEnd writeEnd =
      (s.pipeReturn addr readFD writeFD readEnd writeEnd).mark m := by
  unfold pipeReturn
  rw [mem_mark]
  cases s.mem.write32 addr (BitVec.ofInt 32 readFD) with
  | error e => rfl
  | ok mem =>
    dsimp only
    cases mem.write32 (addr + 4) (BitVec.ofInt 32 writeFD) with
    | error e => rfl
    | ok mem => rfl

theorem missesMark_pipe (addr flags : U32) : MissesMark m (·.pipe addr flags) := by
  intro s
  dsimp only [pipe]
  split
  · rfl
  · rw [← mark_pipeReturn]
    rfl

theorem mark_dupResult (s : KState) (oldFD newFD : Int) (flags : U32) (dup3 : Bool) :
    (s.mark m).dupResult oldFD newFD flags dup3 =
      ((s.dupResult oldFD newFD flags dup3).1, (s.dupResult oldFD newFD flags dup3).2.mark m) := by
  have hclosed (f : Handle) : (s.mark m).closeReplaced newFD f = (s.closeReplaced newFD f).mark m := by
    unfold closeReplaced
    rw [entry_mark]
    cases s.entry newFD with
    | none => rfl
    | some old =>
      dsimp only
      split
      · rfl
      · rfl
  unfold dupResult dupInstall validFD
  rw [handleForFD_mark]
  simp only [hclosed]
  split
  · rfl
  split
  · split
    · rfl
    · rfl
  split
  · rfl
  split
  · rfl
  · rfl

theorem missesMark_dup2 (oldFD newFD : Int) : MissesMark m (·.dup2 oldFD newFD) := by
  intro s
  dsimp only [dup2]
  rw [mark_dupResult]
  rfl

theorem missesMark_dup3 (oldFD newFD : Int) (flags : U32) : MissesMark m (·.dup3 oldFD newFD flags) := by
  intro s
  dsimp only [dup3]
  rw [mark_dupResult]
  rfl

theorem mark_fcntlFlags (s : KState) (fd : Int) (command argument : U32) :
    (s.mark m).fcntlFlags fd command argument = (s.fcntlFlags fd command argument).mark m := by
  unfold fcntlFlags
  rw [validFD_mark, files_mark]
  split
  · rfl
  split
  · rfl
  split
  · split
    · rfl
    split
    · rfl
    · rfl
  · rfl

theorem mark_fcntlDup (s : KState) (fd : Int) (cloexec : Bool) (argument : U32) :
    (s.mark m).fcntlDup fd cloexec argument = (s.fcntlDup fd cloexec argument).mark m := by
  unfold fcntlDup
  rw [handleForFD_mark]
  split
  · rfl
  split
  · rfl
  · rfl

theorem missesMark_fcntl (fd : Int) (command argument : U32) :
    MissesMark m (·.fcntl fd command argument) := by
  intro s
  dsimp only [fcntl]
  split
  · exact mark_fcntlFlags s fd command argument
  split
  · rfl
  · exact mark_fcntlDup s fd _ argument

theorem mark_closeDescriptor (s : KState) (fd : Int) :
    (s.mark m).closeDescriptor fd = ((s.closeDescriptor fd).1, (s.closeDescriptor fd).2.mark m) := by
  unfold closeDescriptor
  rw [entry_mark]
  cases s.entry fd with
  | none => rfl
  | some f => rfl

theorem mark_closeTTY (s : KState) (fd : Int) :
    (s.mark m).closeTTY fd = ((s.closeTTY fd).1, (s.closeTTY fd).2.mark m) := by
  unfold closeTTY
  rw [tty_mark, files_mark]
  split
  · rfl
  · rfl

theorem missesMark_close (fd : Int) : MissesMark m (·.close fd) := by
  intro s
  dsimp only [close, closeResult]
  rw [mark_closeDescriptor]
  rw [mark_closeTTY]
  split
  · rfl
  split
  · rfl
  · rfl

theorem mark_closeCloexecAt (s : KState) (fd : Int) (cloexec : Bool) :
    (s.mark m).closeCloexecAt fd cloexec = (s.closeCloexecAt fd cloexec).mark m := by
  unfold closeCloexecAt
  rw [entry_mark]
  cases cloexec with
  | false => rfl
  | true =>
    cases s.entry fd with
    | none => rfl
    | some f => rfl

theorem mark_foldl {α : Type} {f : KState → α → KState}
    (hf : ∀ s a, f (s.mark m) a = (f s a).mark m) (l : List α) (s : KState) :
    l.foldl f (s.mark m) = (l.foldl f s).mark m := by
  induction l generalizing s with
  | nil => rfl
  | cons a l ih =>
    rw [List.foldl_cons, List.foldl_cons, hf]
    exact ih (f s a)

theorem missesMark_closeCloexec : MissesMark m (·.closeCloexec) :=
  fun s => mark_foldl (fun s e => mark_closeCloexecAt s e.1 e.2) s.files.fdCloexec.entries s

theorem missesMark_closeOnExit : MissesMark m (·.closeOnExit) :=
  fun s => mark_foldl (fun _ _ => rfl) s.files.fds.entries s

theorem TableOp.missesMark (host : Host) (op : TableOp) : MissesMark m (op.run host) := by
  cases op with
  | «open» pathAddr flags mode => exact missesMark_open host pathAddr flags mode
  | pipe addr flags => exact missesMark_pipe addr flags
  | dup2 oldFD newFD => exact missesMark_dup2 oldFD newFD
  | dup3 oldFD newFD flags => exact missesMark_dup3 oldFD newFD flags
  | fcntl fd command argument => exact missesMark_fcntl fd command argument
  | close fd => exact missesMark_close fd
  | closeCloexec => exact missesMark_closeCloexec
  | guest cpu mem => exact fun _ => rfl

/-! ## Signals -/

theorem missesMark_kill (pid signal : U32) : MissesMark m (·.kill pid signal) := by
  intro s
  have hqueue : (s.mark m).kern.queueSignal signal.toNat = (s.kern.queueSignal signal.toNat).mark m :=
    Kernel.mark_queueSignal s.kern signal.toNat
  dsimp only [kill]
  rw [pid_mark, hqueue]
  split
  · rfl
  split
  · rfl
  split
  · rfl
  · rfl

theorem missesMark_sigprocmask (how setAddr oldAddr size : U32) (realtime : Bool) :
    MissesMark m (·.sigprocmask how setAddr oldAddr size realtime) := by
  intro s
  dsimp only [sigprocmask]
  rw [mem_mark, signalMask_mark]
  generalize (if realtime then 8 else 4 : U32) = wordSize
  split
  · rfl
  split
  · rfl
  split
  · rfl
  split
  · rfl
  split
  · rfl
  · rfl

theorem missesMark_rtSigaction (signal actionAddr oldActionAddr size : U32) :
    MissesMark m (·.rtSigaction signal actionAddr oldActionAddr size) := by
  intro s
  dsimp only [rtSigaction]
  rw [mem_mark, actions_mark]
  split
  · rfl
  split
  · rfl
  split
  · rfl
  split
  · rfl
  · rfl

theorem missesMark_rtSigreturn : MissesMark m (·.rtSigreturn) := by
  intro s
  dsimp only [rtSigreturn]
  rw [mem_mark, cpu_mark]
  split
  · rfl
  split
  · rfl
  · rfl

theorem mark_deliverSignal (s : KState) (signal : Nat) (action : SignalAction) :
    (s.mark m).deliverSignal signal action =
      ((s.deliverSignal signal action).1, (s.deliverSignal signal action).2.mark m) := by
  dsimp only [deliverSignal]
  rw [mem_mark, cpu_mark, signalMask_mark]
  split
  · rfl
  split
  · rfl
  split
  · rfl
  split
  · rfl
  split
  · rfl
  split
  · rfl
  · rfl

/-! ## Futexes -/

theorem mark_futexHostWait (host : Host) (s : KState) (uaddr : U32) (waiter : Nat) :
    (s.mark m).futexHostWait host uaddr waiter = (s.futexHostWait host uaddr waiter).mark m := by
  unfold futexHostWait
  rw [objs_mark]
  cases host.futexWait s.objs.tick with
  | woken => rfl
  | interrupted => rfl
  | timedOut => rfl

theorem mark_futexWait (host : Host) (s : KState) (uaddr value timeoutAddr : U32) :
    (s.mark m).futexWait host uaddr value timeoutAddr =
      (s.futexWait host uaddr value timeoutAddr).mark m := by
  have hdeadline : (s.mark m).futexDeadline host timeoutAddr = s.futexDeadline host timeoutAddr := rfl
  dsimp only [futexWait]
  rw [mem_mark, hdeadline]
  split
  · rfl
  split
  · rfl
  split
  · rfl
  show (if s.kern.schedulerAware = false then _ else if s.kern.blockedFutex ≠ none then _ else _) = _
  split
  · exact mark_futexHostWait host
      { s with futex := (s.futex.add uaddr).2, objs := s.objs.nextTick } uaddr _
  split
  · rfl
  · rfl

theorem missesMark_futexCall (host : Host) (uaddr op value timeoutAddr : U32) :
    MissesMark m (·.futexCall host uaddr op value timeoutAddr) := by
  intro s
  dsimp only [futexCall]
  split
  · rfl
  split
  · exact mark_futexWait host s uaddr value timeoutAddr
  split
  · rfl
  · rfl

theorem mark_tryResumeBlockedFutex (host : Host) (s : KState) :
    (s.mark m).tryResumeBlockedFutex host =
      ((s.tryResumeBlockedFutex host).1, (s.tryResumeBlockedFutex host).2.mark m) := by
  unfold tryResumeBlockedFutex
  rw [blockedFutex_mark, objs_mark]
  cases s.kern.blockedFutex with
  | none => rfl
  | some b =>
    dsimp only
    rw [futex_mark]
    split
    · rfl
    split
    · rfl
    · rfl

/-! ## Requests -/

/-- The calls left to `Services` do not look at pending signals. -/
def Services.MissesSignals (svc : Services) : Prop := ∀ n m, Commutes (mark m) (svc.run n)

theorem missesMark_setThreadArea (addr : U32) : MissesMark m (·.setThreadArea addr) := by
  intro s
  dsimp only [setThreadArea]
  rw [mem_mark]
  split
  · rfl
  · rfl

theorem missesMark_getGroups (size addr : U32) : MissesMark m (·.getGroups size addr) := by
  intro s
  dsimp only [getGroups]
  rw [mem_mark]
  split
  · rfl
  split
  · rfl
  · rfl

theorem missesMark_setGroups (size addr : U32) : MissesMark m (·.setGroups size addr) := by
  intro s
  dsimp only [setGroups]
  rw [mem_mark]
  split
  · rfl
  split
  · rfl
  split
  · rfl
  · rfl

theorem Request.commutes (host : Host) {svc : Services} (hsvc : svc.MissesSignals) (r : Request) :
    Commutes (mark m) (r.run host svc) := by
  cases r with
  | table op => exact (op.missesMark host).update
  | io c => exact inferInstanceAs (Commutes _ (c.run host))
  | llseek fd offset resultAddr whence =>
    exact inferInstanceAs (Commutes _ (Kernel.llseek host fd offset resultAddr whence))
  | kill pid signal => exact (missesMark_kill pid signal).update
  | sigprocmask how setAddr oldAddr size realtime =>
    exact (missesMark_sigprocmask how setAddr oldAddr size realtime).update
  | rtSigaction signal actionAddr oldActionAddr size =>
    exact (missesMark_rtSigaction signal actionAddr oldActionAddr size).update
  | rtSigreturn => exact missesMark_rtSigreturn.update
  | futex uaddr op value timeoutAddr =>
    exact (missesMark_futexCall host uaddr op value timeoutAddr).update
  | setThreadArea addr => exact (missesMark_setThreadArea addr).update
  | getGroups size addr => exact (missesMark_getGroups size addr).update
  | setGroups size addr => exact (missesMark_setGroups size addr).update
  | service n => exact hsvc n m
  | exit _ | getPID | getID | setTIDAddress _ | munmap _ _ | mprotect _ _ _ | task _ | refuse =>
    exact ⟨fun _ => rfl⟩

/-! ## A pipe call that has blocked -/

instance : Commutes (mark m) unblockPipe := ⟨fun _ => rfl⟩

instance (addr : U32) (r : Transfer) : Commutes (mark m) (resumeRead addr r) := by
  unfold resumeRead
  infer_instance

instance (host : Host) (b : PipeBlock) : Commutes (mark m) (tryResumeBlockedPipe host b) := by
  unfold tryResumeBlockedPipe
  refine get_bind (fun _ => rfl) fun s => ?_
  split
  · infer_instance
  · infer_instance

/-! ## The signal that is taken -/

def KState.without (n : Nat) (s : KState) : KState :=
  { s with kern := { s.kern with pendingSignals := s.kern.pendingSignals &&& ~~~ signalBit n } }

theorem eq_of_hasSignal {a b : U64} (h : ∀ k, IsSignal k → hasSignal a k = hasSignal b k) : a = b := by
  refine BitVec.eq_of_getLsbD_eq ?_
  intro j hj
  exact h (j + 1) ⟨by omega, by omega⟩

section Take
variable {n : Nat} {s : KState}

theorem KState.ext_pending {t : KState} (h : t = { s with kern := { s.kern with
    pendingSignals := t.kern.pendingSignals } })
    (hsame : ∀ k, IsSignal k → hasSignal t.kern.pendingSignals k = hasSignal s.kern.pendingSignals k) :
    t = s := by
  rw [eq_of_hasSignal hsame] at h
  exact h

/-- A set of signals, with `n` and without it. -/
theorem hasSignal_mark (hn : IsSignal n) (hk : IsSignal k) :
    hasSignal (s.mark (signalBit n)).kern.pendingSignals k =
      (hasSignal s.kern.pendingSignals k || decide (k = n)) := by
  show hasSignal (s.kern.pendingSignals ||| signalBit n) k = _
  rw [hasSignal_or, hasSignal_bit hn hk]

theorem hasSignal_without_signal (hn : IsSignal n) (hk : IsSignal k) :
    hasSignal (s.without n).kern.pendingSignals k =
      (hasSignal s.kern.pendingSignals k && !decide (k = n)) := by
  show hasSignal (s.kern.pendingSignals &&& ~~~ signalBit n) k = _
  rw [Kernel.hasSignal_without hk, hasSignal_bit hn hk]

theorem mark_without (hn : IsSignal n) : (s.without n).mark (signalBit n) = s.mark (signalBit n) := by
  refine ext_pending rfl ?_
  intro k hk
  rw [hasSignal_mark hn hk, hasSignal_mark hn hk, hasSignal_without_signal hn hk]
  cases hasSignal s.kern.pendingSignals k <;> cases decide (k = n) <;> rfl

theorem without_mark (hn : IsSignal n) : (s.mark (signalBit n)).without n = s.without n := by
  refine ext_pending rfl ?_
  intro k hk
  rw [hasSignal_without_signal hn hk, hasSignal_without_signal hn hk, hasSignal_mark hn hk]
  cases hasSignal s.kern.pendingSignals k <;> cases decide (k = n) <;> rfl

theorem mark_of_pending (hn : IsSignal n) (h : hasSignal s.kern.pendingSignals n = true) :
    s.mark (signalBit n) = s := by
  refine ext_pending rfl ?_
  intro k hk
  rw [hasSignal_mark hn hk]
  by_cases hkn : k = n
  · rw [hkn, h, Bool.true_or]
  · rw [decide_eq_false hkn, Bool.or_false]

theorem without_of_clear (hn : IsSignal n) (h : hasSignal s.kern.pendingSignals n = false) :
    s.without n = s := by
  refine ext_pending rfl ?_
  intro k hk
  rw [hasSignal_without_signal hn hk]
  by_cases hkn : k = n
  · rw [hkn, h, Bool.false_and]
  · rw [decide_eq_false hkn, Bool.not_false, Bool.and_true]

theorem takePendingSignal_without {a : SignalAction} (h : s.takePendingSignal.1 = some (n, a)) :
    s.takePendingSignal.2 = s.without n := takePendingSignal_state h

theorem available_mark (hn : IsSignal n) (hk : k ≠ n) :
    (s.mark (signalBit n)).Available k ↔ s.Available k := by
  refine and_congr_right fun hsignal => ?_
  rw [hasSignal_mark hn hsignal, decide_eq_false hk, Bool.or_false, signalMask_mark]

theorem mark_without_ne (hn : IsSignal n) (hk : IsSignal k) (hne : k ≠ n) :
    (s.mark (signalBit n)).without k = (s.without k).mark (signalBit n) := by
  refine ext_pending rfl ?_
  intro j hj
  rw [hasSignal_without_signal hk hj, hasSignal_mark hn hj, hasSignal_mark hn hj,
    hasSignal_without_signal hk hj]
  by_cases hjn : j = n
  · subst hjn
    rw [decide_eq_false (Ne.symm hne), decide_eq_true rfl, Bool.or_true, Bool.or_true]
    rfl
  · rw [decide_eq_false hjn, Bool.or_false, Bool.or_false]

/-- If it is not `n` that is taken, then for what is available with the mark something at least
as low is without it. -/
theorem available_of_mark (hn : IsSignal n)
    (hother : ∀ a, (s.mark (signalBit n)).takePendingSignal.1 ≠ some (n, a))
    (hav : (s.mark (signalBit n)).Available k) : ∃ j ≤ k, s.Available j := by
  by_cases hk : k = n
  · subst hk
    by_contra hno
    refine hother _ (takePendingSignal_some.mpr ⟨hav, ?_, rfl⟩)
    intro j hj hav'
    exact hno ⟨j, hj.le, (available_mark hn (Nat.ne_of_lt hj)).mp hav'⟩
  · exact ⟨k, le_rfl, (available_mark hn hk).mp hav⟩

theorem takePendingSignal_mark (hn : IsSignal n)
    (hother : ∀ a, (s.mark (signalBit n)).takePendingSignal.1 ≠ some (n, a)) :
    (s.mark (signalBit n)).takePendingSignal =
      (s.takePendingSignal.1, s.takePendingSignal.2.mark (signalBit n)) := by
  cases htake : s.takePendingSignal.1 with
  | none =>
    have hno := takePendingSignal_none.mp htake
    have hnone : (s.mark (signalBit n)).takePendingSignal.1 = none := by
      refine takePendingSignal_none.mpr ?_
      intro k hav
      obtain ⟨j, _, hj⟩ := available_of_mark hn hother hav
      exact hno j hj
    exact Prod.ext hnone (by rw [takePendingSignal_idle hnone, takePendingSignal_idle htake])
  | some taken =>
    obtain ⟨k, a⟩ := taken
    obtain ⟨hav, hfirst, haction⟩ := takePendingSignal_some.mp htake
    have hk : k ≠ n := by
      rintro rfl
      rw [mark_of_pending hn hav.2.1] at hother
      exact hother a htake
    have htake' : (s.mark (signalBit n)).takePendingSignal.1 = some (k, a) := by
      refine takePendingSignal_some.mpr ⟨(available_mark hn hk).mpr hav, ?_, haction⟩
      intro j hj hav'
      obtain ⟨l, hl, hav''⟩ := available_of_mark hn hother hav'
      exact hfirst l (hl.trans_lt hj) hav''
    refine Prod.ext htake' ?_
    show (s.mark (signalBit n)).takePendingSignal.2 = _
    rw [takePendingSignal_without htake', takePendingSignal_without htake]
    exact mark_without_ne hn hav.1 hk

end Take

end IshGo.Kernel
