/-
# `IshGo.Kernel.Effects` — what a request does to the table

For the scheduler, a request of a kernel is known by three facts.  It keeps the accounts of
the pipe ends, it does not turn a process into a thread, and it puts something into an empty
table only if it is one of those that install a descriptor.

Most requests leave the table and the ends of pipes aside.
-/
import IshGo.Kernel.PipeCount
import IshGo.Kernel.Syscall

namespace IshGo.Kernel

open I386 Lib KState AllowsTransfers

variable (s : KState) (host : Host) (uaddr : U32)

def Files.Empty (f : Files) : Prop := ∀ fd, f.fds.lookup fd = none

theorem Files.Empty.fds {f : Files} (h : f.Empty) : f.fds = ∅ := by
  refine AList.ext (List.eq_nil_iff_forall_not_mem.mpr fun e he => ?_)
  have hlook : f.fds.lookup e.1 = some e.2 := AList.mem_lookup_iff.mpr he
  rw [h e.1] at hlook
  cases hlook

structure Aside (s s' : KState) : Prop where
  files : s'.files = s.files
  objs : s.objs.SameCounts s'.objs
  thread : s'.kern.thread = s.kern.thread

structure Effect (installs : Prop) (s s' : KState) : Prop where
  accounts : Accounts s s'
  thread : s'.kern.thread = s.kern.thread
  empty : ¬ installs → s.files.Empty → s'.files.Empty

theorem Aside.refl : Aside s s := ⟨rfl, Std.Refl.refl _, rfl⟩

theorem Aside.trans {s t u : KState} (h : Aside s t) (h' : Aside t u) : Aside s u :=
  ⟨h'.files.trans h.files, IsTrans.trans _ _ _ h.objs h'.objs, h'.thread.trans h.thread⟩

theorem Aside.of_objs {s s' : KState} (hf : s'.files = s.files) (ho : s'.objs = s.objs)
    (ht : s'.kern.thread = s.kern.thread) : Aside s s' := ⟨hf, ho ▸ Std.Refl.refl _, ht⟩

theorem Moves.aside {s s' : KState} (h : Moves s s') : Aside s s' := ⟨h.files, h.objs, h.thread⟩

theorem Aside.effect {s s' : KState} (h : Aside s s') (P : Prop) : Effect P s s' where
  accounts := .of_same (by rw [h.files]) h.objs
  thread := h.thread
  empty := fun _ he => h.files ▸ he

/-! ## Signals and futexes -/

theorem aside_rtSigaction (signal actionAddr oldActionAddr size : U32) :
    Aside s (s.rtSigaction signal actionAddr oldActionAddr size) := by
  simp only [rtSigaction]
  repeat' split
  all_goals exact .of_objs rfl rfl rfl

structure FutexFrame (s s' : KState) : Prop extends Aside s s' where
  actions : s'.actions = s.actions
  record : s'.kern.blockedPipe = s.kern.blockedPipe

theorem futexFrame_futexCall (uaddr op value timeoutAddr : U32) :
    FutexFrame s (s.futexCall host uaddr op value timeoutAddr) := by
  simp only [futexCall, futexWait, futexHostWait]
  repeat' split
  all_goals exact ⟨⟨rfl, ⟨fun _ _ => rfl, rfl, rfl, rfl⟩, rfl⟩, rfl, rfl⟩

theorem futexFrame_tryResumeBlockedFutex : FutexFrame s (s.tryResumeBlockedFutex host).2 := by
  simp only [tryResumeBlockedFutex]
  repeat' split
  all_goals exact ⟨⟨rfl, ⟨fun _ _ => rfl, rfl, rfl, rfl⟩, rfl⟩, rfl, rfl⟩

section Pipe
variable {R : KState → KState → Prop}

instance [AllowsTransfers R] (addr : U32) (r : Transfer) : Stays R (resumeRead addr r) := by
  unfold resumeRead
  infer_instance

variable [AllowsBlocking R]

instance : Stays R unblockPipe := ⟨fun s => AllowsBlocking.pipe s none⟩

instance (host : Host) (b : PipeBlock) : Stays R (tryResumeBlockedPipe host b) := by
  unfold tryResumeBlockedPipe
  refine Stays.bind_of fun s => ?_
  split
  · dsimp only
    split
    · refine Stays.bind_of fun r => ?_
      infer_instance
    · refine Stays.bind_of fun r => ?_
      infer_instance
  · infer_instance

end Pipe

/-! ## The other requests -/

/-- Besides transfers, a new mask, a new address for the TID and an exit are allowed. -/
class AllowsSignals (R : KState → KState → Prop) : Prop extends AllowsTransfers R where
  mask : ∀ s m, R s { s with kern := { s.kern with signalMask := m } }
  tid : ∀ s addr, R s { s with kern := { s.kern with tidAddress := addr } }
  exits : ∀ s e c, R s { s with kern := { s.kern with exited := e, exitCode := c } }

instance : AllowsSignals Aside where
  refl := Aside.refl
  trans _ _ _ := Aside.trans
  machine _ _ _ := .of_objs rfl rfl rfl
  pending _ _ := .of_objs rfl rfl rfl
  objs _ _ _ ho := ⟨rfl, ho, rfl⟩
  mask _ _ := .of_objs rfl rfl rfl
  tid _ _ := .of_objs rfl rfl rfl
  exits _ _ _ := .of_objs rfl rfl rfl

section AllowsSignals
variable {R : KState → KState → Prop} [AllowsSignals R]

theorem allows_then {s t : KState} (h : R s t) (cpu : CPU) (mem : Memory) :
    R s { t with cpu := cpu, mem := mem } := IsTrans.trans _ _ _ h (machine t cpu mem)

theorem allows_mask (cpu : CPU) (mem : Memory) (m : U64) :
    R s { s with cpu := cpu, mem := mem, kern := { s.kern with signalMask := m } } :=
  allows_then (AllowsSignals.mask s m) cpu mem

theorem allows_kill (pid signal : U32) : R s (s.kill pid signal) := by
  unfold kill Kernel.queueSignal
  repeat' split
  · exact machine s _ _
  · exact machine s _ _
  · exact machine s _ _
  · exact allows_then (pending s _) _ _
  · exact machine s _ _

theorem allows_sigprocmask (how setAddr oldAddr size : U32) (realtime : Bool) :
    R s (s.sigprocmask how setAddr oldAddr size realtime) := by
  simp only [sigprocmask]
  repeat' split
  all_goals first | exact machine s _ _ | exact allows_mask s _ _ _

theorem allows_rtSigreturn : R s s.rtSigreturn := by
  rw [rtSigreturn]
  repeat' split
  all_goals first | exact machine s _ _ | exact allows_mask s _ _ _

theorem allows_deliverSignal (signal : Nat) (action : SignalAction) : R s (s.deliverSignal signal action).2 := by
  simp only [deliverSignal]
  repeat' split
  all_goals first | exact machine s _ _ | exact allows_mask s _ _ _

theorem allows_takePendingSignal : R s s.takePendingSignal.2 := by
  rw [takePendingSignal]
  split
  · exact Std.Refl.refl s
  · exact pending s _

theorem allows_setThreadArea (addr : U32) : R s (s.setThreadArea addr) := by
  rw [setThreadArea]
  split <;> exact machine s _ _

theorem allows_getGroups (size addr : U32) : R s (s.getGroups size addr) := by
  rw [getGroups]
  repeat' split
  all_goals exact machine s _ _

theorem allows_setGroups (size addr : U32) : R s (s.setGroups size addr) := by
  rw [setGroups]
  repeat' split
  all_goals exact machine s _ _

/-- The requests that have more to do with the rest of the state than the others. -/
def Request.special : Request → Bool
  | futex _ _ _ _ | rtSigaction _ _ _ _ | io _ => true
  | _ => false

theorem Request.allowed {svc : Services} (hsvc : ∀ n, Stays R (svc.run n)) {r : Request} (hr : r.special = false)
    (ht : ∀ op, r ≠ .table op) (s : KState) : R s (after (r.run host svc) s) := by
  cases r with
  | futex | rtSigaction | io => cases hr
  | table op => exact absurd rfl (ht op)
  | llseek fd offset resultAddr whence =>
    exact Stays.stays (R := R) (x := Kernel.llseek host fd offset resultAddr whence) s
  | kill pid signal => exact allows_kill s pid signal
  | sigprocmask how setAddr oldAddr size realtime =>
    exact allows_sigprocmask s how setAddr oldAddr size realtime
  | rtSigreturn => exact allows_rtSigreturn s
  | setThreadArea addr => exact allows_setThreadArea s addr
  | setTIDAddress addr => exact allows_then (AllowsSignals.tid s addr) _ _
  | getGroups size addr => exact allows_getGroups s size addr
  | setGroups size addr => exact allows_setGroups s size addr
  | exit code => exact allows_then (AllowsSignals.exits s true code) _ _
  | service n => exact (hsvc n).stays s
  | getPID | getID | munmap | mprotect | task | refuse => exact machine s _ _

end AllowsSignals

def TableOp.installs : TableOp → Bool
  | .open _ _ _ | .pipe _ _ | .dup2 _ _ | .dup3 _ _ _ => true
  | .fcntl _ command _ => command = fDupFD ∨ command = fDupFDCloexec
  | .close _ | .closeCloexec | .guest _ _ => false

/-- The kernel, the signal actions and the futexes are as before. -/
structure TableOnly (s s' : KState) : Prop where
  kern : s'.kern = s.kern
  actions : s'.actions = s.actions
  futex : s'.futex = s.futex

theorem TableOnly.refl : TableOnly s s := ⟨rfl, rfl, rfl⟩

theorem TableOnly.trans {s t u : KState} (h : TableOnly s t) (h' : TableOnly t u) : TableOnly s u :=
  ⟨h'.kern.trans h.kern, h'.actions.trans h.actions, h'.futex.trans h.futex⟩

theorem tableOnly_foldl {α : Type} {f : KState → α → KState} (hf : ∀ s a, TableOnly s (f s a))
    (l : List α) (s : KState) : TableOnly s (l.foldl f s) := by
  induction l generalizing s with
  | nil => exact .refl s
  | cons a l ih => exact (hf s a).trans (ih (f s a))

theorem tableOnly_closeReplaced (fd : Int) (h : Handle) : TableOnly s (s.closeReplaced fd h) := by
  unfold closeReplaced
  split
  · split <;> exact ⟨rfl, rfl, rfl⟩
  · exact .refl s

theorem tableOnly_closeCloexec : TableOnly s s.closeCloexec := by
  refine tableOnly_foldl (fun s e => ?_) _ s
  unfold closeCloexecAt
  split
  · exact .refl s
  · dsimp only
    split <;> exact ⟨rfl, rfl, rfl⟩

theorem tableOnly_closeOnExit : TableOnly s s.closeOnExit := by
  refine tableOnly_foldl (fun s e => ?_) _ s
  exact ⟨rfl, rfl, rfl⟩

theorem tableOnly_dupResult (oldFD newFD : Int) (flags : U32) (dup3 : Bool) :
    TableOnly s ((s.dupResult oldFD newFD flags dup3).2.ret (s.dupResult oldFD newFD flags dup3).1) := by
  rcases dupResult_cases s oldFD newFD flags dup3 with ⟨v, h⟩ | ⟨f, _, _, _, h⟩
  · rw [h]
    exact ⟨rfl, rfl, rfl⟩
  · rw [h]
    exact (tableOnly_closeReplaced s newFD f).trans ⟨rfl, rfl, rfl⟩

theorem TableOp.tableOnly (s : KState) (op : TableOp) : TableOnly s (op.run host s) := by
  cases op with
  | «open» pathAddr flags mode =>
    obtain ⟨objs, _, ⟨v, h, -⟩ | ⟨f, _, h⟩⟩ := open_cases host s pathAddr flags mode
    · rw [TableOp.run, h]
      exact ⟨rfl, rfl, rfl⟩
    · rw [TableOp.run, h]
      exact ⟨rfl, rfl, rfl⟩
  | pipe addr flags =>
    rcases pipe_cases s addr flags with h | ⟨_, _, _, _, _, _, _, _, _, _, h | h⟩
    · rw [TableOp.run, h]
      exact ⟨rfl, rfl, rfl⟩
    · rw [TableOp.run, h]
      exact ⟨rfl, rfl, rfl⟩
    · rw [TableOp.run, h]
      exact ⟨rfl, rfl, rfl⟩
  | dup2 oldFD newFD => exact tableOnly_dupResult s oldFD newFD 0 false
  | dup3 oldFD newFD flags => exact tableOnly_dupResult s oldFD newFD flags true
  | fcntl fd command argument =>
    rcases fcntl_cases s fd command argument with ⟨_, _, -, h⟩ | ⟨_, _, _, _, -, -, h⟩
    · rw [TableOp.run, h]
      exact ⟨rfl, rfl, rfl⟩
    · rw [TableOp.run, h]
      exact ⟨rfl, rfl, rfl⟩
  | close fd =>
    refine TableOnly.trans (t := (s.closeResult fd).2) ?_ ⟨rfl, rfl, rfl⟩
    rcases closeResult_cases s fd with ⟨f, he⟩ | ⟨he, hs, hc⟩ | hgone
    · rw [closeResult_entry he]
      exact ⟨rfl, rfl, rfl⟩
    · rw [closeResult_terminal he hs hc]
      exact ⟨rfl, rfl, rfl⟩
    · rw [closeResult_gone hgone]
      exact .refl s
  | closeCloexec => exact tableOnly_closeCloexec s
  | guest cpu mem => exact ⟨rfl, rfl, rfl⟩

theorem empty_close {s : KState} (h : s.files.Empty) (fd : Int) : (s.close fd).files.Empty := by
  show (s.closeResult fd).2.files.Empty
  rcases closeResult_cases s fd with ⟨f, he⟩ | ⟨he, hs, hc⟩ | hgone
  · rw [entry, h fd] at he
    cases he
  · rw [closeResult_terminal he hs hc]
    exact h
  · rw [closeResult_gone hgone]
    exact h

theorem empty_closeCloexec {s : KState} (h : s.files.Empty) : s.closeCloexec.files.Empty := by
  intro fd
  have hentry := closeCloexec_entry s fd
  rw [entry, entry, h fd, ite_self] at hentry
  exact hentry

theorem fcntl_fds {s : KState} {fd : Int} {command argument : U32}
    (h : ¬ (command = fDupFD ∨ command = fDupFDCloexec)) :
    (s.fcntl fd command argument).files.fds = s.files.fds := by
  rw [fcntl]
  split
  · rw [fcntlFlags]
    repeat' split
    all_goals rfl
  · rw [if_pos (not_or.mp h)]
    rfl

theorem TableOp.effect (s : KState) (op : TableOp) : Effect op.installs s (op.run host s) where
  accounts := op.accounts host s
  thread := congrArg Kernel.thread (op.tableOnly host s).kern
  empty := by
    intro hno he
    cases op with
    | «open» | pipe | dup2 | dup3 => exact absurd rfl hno
    | fcntl fd command argument =>
      intro fd'
      show (s.fcntl fd command argument).files.fds.lookup fd' = none
      rw [fcntl_fds (fun hdup => hno (decide_eq_true hdup))]
      exact he fd'
    | close fd => exact empty_close he fd
    | closeCloexec => exact empty_closeCloexec he
    | guest cpu mem => exact he

theorem effect_closeOnExit : Effect False s s.closeOnExit where
  accounts := accounts_closeOnExit s
  thread := congrArg Kernel.thread (tableOnly_closeOnExit s).kern
  empty := fun _ _ fd => by rw [closeOnExit_fds]; rfl

def Request.installs : Request → Bool
  | .table op => op.installs
  | _ => false

theorem Request.aside (svc : Services) {r : Request} (hr : ∀ op, r ≠ .table op) (s : KState) :
    Aside s (after (r.run host svc) s) := by
  have hsvc (n : U32) : Stays Aside (svc.run n) := ⟨fun s => ((svc.moves n).stays s).aside⟩
  cases r with
  | table op => exact absurd rfl (hr op)
  | io c => exact (Stays.stays (R := Moves) (x := c.run host) s).aside
  | rtSigaction signal actionAddr oldActionAddr size =>
    exact aside_rtSigaction s signal actionAddr oldActionAddr size
  | futex uaddr op value timeoutAddr => exact (futexFrame_futexCall s host uaddr op value timeoutAddr).toAside
  | _ => exact Request.allowed host hsvc rfl hr s

theorem Request.effect (svc : Services) (r : Request) (s : KState) :
    Effect r.installs s (after (r.run host svc) s) := by
  by_cases hr : ∃ op, r = .table op
  · obtain ⟨op, rfl⟩ := hr
    exact op.effect host s
  · exact (Request.aside host svc (fun op h => hr ⟨op, h⟩) s).effect _

end IshGo.Kernel
