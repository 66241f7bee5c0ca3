/-
# `IshGo.Guest.PipeCalls` — a blocked call and its pipe

Threads share a descriptor table, and one of them may close or replace the descriptor that
another waits on.  `on` notes, along a run of the scheduler, the pipe that each task has
blocked on.  A call is completed on that pipe exactly if the number still stands for the right
end of it (`resume_on_pipe`); in runs that leave the numbers of blocked calls alone, it always
is.
-/
import IshGo.Guest.Acts
import IshGo.Guest.Exit
import IshGo.Kernel.Blocked

namespace IshGo.Guest

open I386 Kernel Lib

variable {b : PipeBlock} {i : Nat} {s : KState}
variable {w w' : World} {env : Env}
variable {p : Process} {pipe : Nat} {r : Request}

namespace World

def record (w : World) (i : Nat) : Option PipeBlock := (w.proc i).kern.blockedPipe

def pipeAt (w : World) (i : Nat) (fd : Int) : Option Nat :=
  match (w.enter i).entry fd with
  | some (.pipe id) => some (w.objs.ends id).pipe
  | _ => none

/-- A task that has a record now, and had none, has blocked on the pipe of its number. -/
def noted (w w' : World) (on : Nat → Option Nat) (i : Nat) : Option Nat :=
  match w.record i, w'.record i with
  | none, some b => w.pipeAt i b.fd
  | _, _ => on i

inductive PipeRun (env : Env) (C : World → World → Prop) : (Nat → Option Nat) → World → Prop
  | start (image : Image) (tty : Option Nat) (objs : Objects) :
      PipeRun env C (fun _ => none) (World.start image tty objs)
  | act {on : Nat → Option Nat} {w w' : World} : PipeRun env C on w → Act env w w' → C w w' →
      PipeRun env C (noted w w' on) w'
  | terminal {on : Nat → Option Nat} {w : World} (id : Nat) (t : Terminal) : PipeRun env C on w →
      PipeRun env C on (w.setTerminal id t)

/-- As long as a call is blocked, its number stands for an end of the pipe if it did before. -/
def KeepsEnds (w w' : World) : Prop :=
  ∀ i < w.procs.next, ∀ b, w.record i = some b → w'.record i = some b →
    ∀ pipe, (w.enter i).EndOf b pipe → (w'.enter i).EndOf b pipe

/-! ## What an act does to the records -/

structure SameRecords (w w' : World) : Prop where
  next : w'.procs.next = w.procs.next
  record : ∀ j, w'.record j = w.record j

theorem SameRecords.of_procs (h : w'.procs = w.procs) : SameRecords w w' :=
  ⟨by rw [h], fun j => by rw [World.record, World.record, proc, proc, h]⟩

theorem SameRecords.trans {w'' : World} (h : SameRecords w w') (h' : SameRecords w' w'') :
    SameRecords w w'' := ⟨h'.next.trans h.next, fun j => (h'.record j).trans (h.record j)⟩

theorem SameRecords.setProc
    (hp : p.kern.blockedPipe = (w.proc i).kern.blockedPipe) : SameRecords w (w.setProc i p) :=
  ⟨rfl, fun j => Heap.map_cell_set (fun p : Process => p.kern.blockedPipe) w.procs hp j⟩

theorem SameRecords.leave (h : RecordAside (w.enter i) s) : SameRecords w (w.leave i s) :=
  ⟨rfl, fun j => leave_proc (fun p : Process => p.kern.blockedPipe) h j⟩

theorem SameRecords.install (w : World) (i : Nat) (image : Image) : SameRecords w (w.install i image) := by
  have hclose : SameRecords w (w.leave i (w.enter i).closeCloexec) :=
    .leave (AllowsCalls.table (tableOnly_closeCloexec _))
  have hset : SameRecords (w.leave i (w.enter i).closeCloexec)
      ((w.leave i (w.enter i).closeCloexec).setProc i
        (((w.leave i (w.enter i).closeCloexec).proc i).withImage image w.mems.next)) :=
    .setProc rfl
  exact hclose.trans (hset.trans (.of_procs rfl))

def RecordFrom (w w' : World) : Prop :=
  ∀ j < w'.procs.next, ∀ b, w'.record j = some b → j < w.procs.next ∧
    (w.record j = some b ∨ w.record j = none ∧ b.length ≠ 0 ∧
      ∃ pipe, (w.enter j).EndOf b pipe ∧ (w'.enter j).EndOf b pipe)

theorem SameRecords.recordFrom (h : SameRecords w w') : RecordFrom w w' :=
  fun j hj _ hb => ⟨h.next ▸ hj, Or.inl ((h.record j).symm.trans hb)⟩

theorem record_leave_ne {j : Nat} (h : j ≠ i) : (w.leave i s).record j = w.record j :=
  congrArg (·.kern.blockedPipe) (proc_leave_ne h)

theorem record_leave_self : (w.leave i s).record i = s.kern.blockedPipe :=
  congrArg (·.kern.blockedPipe) proc_leave_self

theorem endOf_leave (h : s.EndOf b pipe) : ((w.leave i s).enter i).EndOf b pipe := by
  obtain ⟨id, hentry, hpipe, hwrite⟩ := h
  refine ⟨id, ?_, hpipe, hwrite⟩
  have hfiles : (w.leave i s).files i = s.files := by
    rw [files, leave_table]
    exact Heap.cell_set ..
  show ((w.leave i s).files i).fds.lookup b.fd = _
  rw [hfiles]
  exact hentry

theorem RecordFrom.request (hsvc : env.services.SparesPipes) :
    RecordFrom w (w.runKernel i (r.run env.host env.services)).2 := by
  obtain ⟨s, hung, heq, hs⟩ := w.runKernel_eq i (r.run env.host env.services)
  rw [heq]
  have hrecord := r.record env.host hsvc (w.enter i)
  rw [← hs] at hrecord
  rcases hrecord with hsame | ⟨b, hblocks, hmoves⟩
  · exact ((SameRecords.leave hsame).trans (.of_procs rfl)).recordFrom
  intro j hj b' hb'
  refine ⟨hj, ?_⟩
  by_cases hji : j = i
  · subst hji
    have hb : b' = b := by
      have hself : some b' = s.kern.blockedPipe := hb'.symm.trans record_leave_self
      exact Option.some.inj (hself.trans hblocks.after)
    subst hb
    obtain ⟨pipe, hend⟩ := hblocks.pipe
    exact Or.inr ⟨hblocks.before, hblocks.asks, pipe, hend, endOf_leave (hend.moves hmoves)⟩
  · exact Or.inl ((record_leave_ne hji).symm.trans hb')

theorem RecordFrom.resumePipe (b : PipeBlock) :
    RecordFrom w (w.runKernel i (tryResumeBlockedPipe env.host b)).2 := by
  obtain ⟨s, hung, heq, hs⟩ := w.runKernel_eq i (tryResumeBlockedPipe env.host b)
  rw [heq]
  have hrecord := tryResume_record env.host b (w.enter i)
  rw [← hs] at hrecord
  rcases hrecord with hsame | hnone
  · exact ((SameRecords.leave hsame).trans (.of_procs rfl)).recordFrom
  intro j hj b' hb'
  refine ⟨hj, Or.inl ?_⟩
  have hji : j ≠ i := by
    rintro rfl
    have hself : some b' = s.kern.blockedPipe := hb'.symm.trans record_leave_self
    rw [hnone] at hself
    cases hself
  exact (record_leave_ne hji).symm.trans hb'

theorem RecordFrom.addTask {v : World} (hprocs : v.procs = w.procs) (pid : U32)
    (hp : p.kern.blockedPipe = none) : RecordFrom w (v.addTask pid p) := by
  intro j hj b hb
  have hnew : (v.addTask pid p).record w.procs.next = none := by
    rw [← hprocs]
    exact (congrArg (fun p : Process => p.kern.blockedPipe) (Heap.cell_alloc v.procs _)).trans hp
  have hlt : j < w.procs.next := by
    refine Nat.lt_of_le_of_ne (Nat.le_of_lt_succ (hprocs ▸ hj)) ?_
    rintro rfl
    rw [hnew] at hb
    cases hb
  have hold : (v.addTask pid p).record j = w.record j := by
    have hcell : (v.addTask pid p).proc j = v.procs.cell j :=
      Heap.cell_alloc_lt v.procs _ (hprocs ▸ hlt)
    rw [record, hcell, hprocs]
    rfl
  exact ⟨hlt, Or.inl (hold.symm.trans hb)⟩

theorem Act.recordFrom (hsvc : env.services.SparesPipes) (h : Act env w w') : RecordFrom w w' := by
  have hsame : ∀ {w'}, SameRecords w w' → RecordFrom w w' := fun h => h.recordFrom
  cases h with
  | own _ hp =>
    obtain ⟨b, e, c, hkern⟩ := hp.kern
    exact hsame (.setProc (by rw [hkern]))
  | @machine i m _ =>
    have hset : SameRecords w (w.setProc i { w.proc i with cpu := m.toCPU }) := .setProc rfl
    exact hsame (hset.trans (.of_procs rfl))
  | request r hi _ => exact .request hsvc
  | resumeFutex _ => exact hsame (.leave (futexFrame_tryResumeBlockedFutex _ env.host).record)
  | resumePipe b _ _ => exact .resumePipe b
  | take _ => exact hsame (.leave (allows_takePendingSignal _))
  | deliver signal action _ => exact hsame (.leave (allows_deliverSignal _ signal action))
  | closeOnExit _ => exact hsame (.leave (AllowsCalls.table (tableOnly_closeOnExit _)))
  | fork pid =>
    rcases w.fork_cases pid with heq | ⟨i, _, heq⟩
    · rw [heq]
      exact hsame (.of_procs rfl)
    rw [heq]
    refine .addTask ?_ _ ?_
    · rfl
    · rfl
  | clone pid caller flags childStack parentTID childTID tls =>
    rcases w.clone_cases pid caller flags childStack parentTID childTID tls with
      ⟨_, _, _, _, heq⟩ | ⟨_, _, _, heq⟩
    · rw [heq]
      exact hsame (.of_procs rfl)
    rw [heq]
    refine .addTask ?_ _ ?_
    · rfl
    · rfl
  | store space asked addr value =>
    obtain ⟨mems, heq⟩ := w.storeWord_eq space asked addr value
    rw [heq]
    exact hsame (.of_procs rfl)
  | reap | tick | count => exact hsame (.of_procs rfl)
  | install image _ => exact hsame (.install w _ image)

/-! ## Whole runs -/

section Run
variable {C : World → World → Prop} {on : Nat → Option Nat}

theorem pipeAt_of_endOf (h : (w.enter i).EndOf b pipe) : w.pipeAt i b.fd = some pipe := by
  obtain ⟨id, hentry, hpipe, _⟩ := h
  rw [pipeAt, hentry]
  exact congrArg some hpipe

/-- Every blocked task has asked for something, and the pipe has been noted. -/
def Noted (on : Nat → Option Nat) (w : World) : Prop :=
  ∀ i < w.procs.next, ∀ b, w.record i = some b → b.length ≠ 0 ∧ ∃ pipe, on i = some pipe

theorem Noted.act (h : Noted on w) (hfrom : RecordFrom w w') : Noted (noted w w' on) w' := by
  intro i hi b hb
  obtain ⟨hlt, hbefore | ⟨hnone, hask, pipe, hend, _⟩⟩ := hfrom i hi b hb
  · rw [noted, hbefore]
    exact h i hlt b hbefore
  · rw [noted, hnone, hb]
    exact ⟨hask, pipe, pipeAt_of_endOf hend⟩

theorem PipeRun.noted (hsvc : env.services.SparesPipes) (h : PipeRun env C on w) : Noted on w := by
  induction h with
  | start image tty objs => exact fun _ _ _ hb => nomatch hb
  | act _ hact _ ih => exact ih.act (hact.recordFrom hsvc)
  | terminal id t _ ih => exact ih

/-- The numbers of all blocked tasks stand for ends of their pipes. -/
def Holds (on : Nat → Option Nat) (w : World) : Prop :=
  ∀ i < w.procs.next, ∀ b pipe, w.record i = some b → on i = some pipe → (w.enter i).EndOf b pipe

theorem Holds.act (h : Holds on w) (hfrom : RecordFrom w w') (hkeeps : KeepsEnds w w') :
    Holds (World.noted w w' on) w' := by
  intro i hi b pipe hb hon
  obtain ⟨hlt, hbefore | ⟨hnone, _, pipe', hend, hend'⟩⟩ := hfrom i hi b hb
  · rw [World.noted, hbefore] at hon
    exact hkeeps i hlt b hbefore hb pipe (h i hlt b pipe hbefore hon)
  · rw [World.noted, hnone, hb] at hon
    cases (pipeAt_of_endOf hend).symm.trans hon
    exact hend'

theorem PipeRun.holds (hsvc : env.services.SparesPipes) (hC : ∀ w w', C w w' → KeepsEnds w w')
    (h : PipeRun env C on w) : Holds on w := by
  induction h with
  | start image tty objs => exact fun _ _ _ _ hb => nomatch hb
  | act _ hact hc ih => exact ih.act (hact.recordFrom hsvc) (hC _ _ hc)
  | terminal id t _ ih => exact ih

/-- In every state of every run: a blocked call that is completed is completed on the pipe that
it has blocked on exactly if its number still stands for the right end of that pipe; if no act
of the run takes that away from a blocked call, it is always so. -/
theorem resume_on_pipe (env : Env) (hsvc : env.services.SparesPipes) (C : World → World → Prop)
    (on : Nat → Option Nat) (w : World) (h : PipeRun env C on w) :
    (∀ i < w.procs.next, ∀ b, w.record i = some b → ∃ pipe, on i = some pipe ∧
      ∀ s', tryResumeBlockedPipe env.host b (w.enter i) = .ok true s' →
        (CompletesOn b pipe (w.enter i) s' ↔ (w.enter i).EndOf b pipe)) ∧
    ((∀ w w', C w w' → KeepsEnds w w') →
      ∀ i < w.procs.next, ∀ b pipe, w.record i = some b → on i = some pipe →
        ∀ s', tryResumeBlockedPipe env.host b (w.enter i) = .ok true s' →
          CompletesOn b pipe (w.enter i) s') := by
  have hnoted := h.noted hsvc
  refine ⟨?_, ?_⟩
  · intro i hi b hb
    obtain ⟨hask, pipe, hon⟩ := hnoted i hi b hb
    exact ⟨pipe, hon, fun s' hs' => completesOn_iff hask hs' pipe⟩
  · intro hC i hi b pipe hb hon s' hs'
    have hend := h.holds hsvc hC i hi b pipe hb hon
    exact (completesOn_iff (hnoted i hi b hb).1 hs' pipe).mpr hend

theorem Reach.pipeRun {C : World → Prop} (h : Reach env C w) : ∃ on, PipeRun env (fun _ _ => True) on w := by
  refine (h.of_act (P := fun w => ∃ on, PipeRun env (fun _ _ => True) on w) ?_ ?_ ?_).2
  · intro image tty objs
    exact ⟨_, .start image tty objs⟩
  · rintro w w' _ ⟨on, hrun⟩ hact
    exact ⟨_, hrun.act hact trivial⟩
  · rintro w id t ⟨on, hrun⟩
    exact ⟨on, hrun.terminal id t⟩

end Run

/-! ## Two pipes -/

/-- A system call of process `i`. -/
def call (w : World) (i : Nat) (r : Request) : World :=
  (w.runKernel i (r.run idle.host idle.services)).2

abbrev AnyPipeRun : (Nat → Option Nat) → World → Prop := PipeRun idle fun _ _ => True

theorem PipeRun.call {on : Nat → Option Nat} (h : AnyPipeRun on w)
    (hi : i < w.procs.next) (hr : ∀ c, r ≠ .task c) :
    AnyPipeRun (World.noted w (w.call i r) on) (w.call i r) := h.act (.request r hi hr) trivial

theorem noted_of_record (h : w.record i = some b) (w' : World)
    (on : Nat → Option Nat) : noted w w' on i = on i := by
  rw [noted, h]

theorem idle_sparesPipes : idle.services.SparesPipes := fun _ => ⟨fun _ => rfl⟩

/-- Two pipes, with the descriptors `0`, `1` and `2`, `3`, and two threads. -/
def twoReaders : World :=
  let w := start ⟨CPU.new, Memory.new 64, 0⟩ none Objects.new
  let w := (w.call 0 (.table (.pipe 32 0))).call 0 (.table (.pipe 40 0))
  (w.clone 1 0 0 0 0 0 0).2

def blockedReader : World := twoReaders.call 1 (.io (.read 0 48 4))

def readRecord : PipeBlock := ⟨0, 48, 4, false, []⟩

theorem blockedReader_run : ∃ on, on 1 = some 0 ∧ AnyPipeRun on blockedReader := by
  have hstart : AnyPipeRun _ _ := .start ⟨CPU.new, Memory.new 64, 0⟩ none Objects.new
  have hpipes := (hstart.call (i := 0) (by decide) (r := .table (.pipe 32 0)) nofun).call (i := 0)
    (by decide) (r := .table (.pipe 40 0)) nofun
  have hthread : AnyPipeRun _ twoReaders := hpipes.act (.clone 1 0 0 0 0 0 0) trivial
  exact ⟨_, by decide +kernel,
    hthread.call (i := 1) (by decide +kernel) (r := .io (.read 0 48 4)) nofun⟩

def attempt (w : World) : KState := after (tryResumeBlockedPipe idle.host readRecord) (w.enter 1)

def answered : World := blockedReader.call 0 (.io (.write 1 32 1))

theorem resume_on_pipe_answered :
    tryResumeBlockedPipe idle.host readRecord (answered.enter 1) = .ok true answered.attempt ∧
      CompletesOn readRecord 0 (answered.enter 1) answered.attempt := by
  obtain ⟨on, hon, hrun⟩ := blockedReader_run
  have hanswered : AnyPipeRun _ answered :=
    hrun.call (i := 0) (by decide +kernel) (r := .io (.write 1 32 1)) nofun
  have hdone : tryResumeBlockedPipe idle.host readRecord (answered.enter 1) =
      .ok true answered.attempt := ok_of_returned (by decide +kernel)
  obtain ⟨pipe, hpipe, hiff⟩ := (resume_on_pipe idle idle_sparesPipes _ _ _ hanswered).1 1
    (by decide +kernel) readRecord (by decide +kernel)
  have hblocked : blockedReader.record 1 = some readRecord := by decide +kernel
  rw [noted_of_record hblocked, hon] at hpipe
  cases hpipe
  refine ⟨hdone, (hiff answered.attempt hdone).mpr ⟨0, ?_, ?_, ?_⟩⟩
  · decide +kernel
  · decide +kernel
  · decide +kernel

/-- The first thread writes to the second pipe, and makes `0` stand for its read end. -/
def replaced : World := (blockedReader.call 0 (.io (.write 3 32 1))).call 0 (.table (.dup2 2 0))

/-- The read that has blocked on the first pipe takes the byte out of the second. -/
theorem resume_on_other_pipe :
    (∃ on, on 1 = some 0 ∧ AnyPipeRun on replaced) ∧ replaced.record 1 = some readRecord ∧
      tryResumeBlockedPipe idle.host readRecord (replaced.enter 1) = .ok true replaced.attempt ∧
      ¬ CompletesOn readRecord 0 (replaced.enter 1) replaced.attempt ∧
      (replaced.objs.pipes 1).data = [0] ∧ (replaced.attempt.objs.pipes 1).data = [] := by
  obtain ⟨on, hon, hrun⟩ := blockedReader_run
  have hblocked : blockedReader.record 1 = some readRecord := by decide +kernel
  have hwritten := hrun.call (i := 0) (by decide +kernel) (r := .io (.write 3 32 1)) nofun
  have hblocked' : (blockedReader.call 0 (.io (.write 3 32 1))).record 1 = some readRecord := by
    decide +kernel
  have hreplaced : AnyPipeRun _ replaced :=
    hwritten.call (i := 0) (by decide +kernel) (r := .table (.dup2 2 0)) nofun
  have hnoted : World.noted (blockedReader.call 0 (.io (.write 3 32 1))) replaced
      (World.noted blockedReader (blockedReader.call 0 (.io (.write 3 32 1))) on) 1 = some 0 := by
    rw [noted_of_record hblocked', noted_of_record hblocked, hon]
  have hbefore : (replaced.objs.pipes 1).data = [0] := by decide +kernel
  have hafter : (replaced.attempt.objs.pipes 1).data = [] := by decide +kernel
  have hrecord : replaced.record 1 = some readRecord := by decide +kernel
  have hdone : tryResumeBlockedPipe idle.host readRecord (replaced.enter 1) =
      .ok true replaced.attempt := ok_of_returned (by decide +kernel)
  refine ⟨⟨_, hnoted, hreplaced⟩, hrecord, hdone, ?_, hbefore, hafter⟩
  -- a call that is completed on the first pipe leaves the second one alone
  intro hcompletes
  have hsame := congrArg (fun o : Objects => (o.pipes 1).data) hcompletes.objs
  simp only [Objects.setPipe, Function.update_of_ne (show (1 : Nat) ≠ 0 by decide)] at hsame
  rw [hafter] at hsame
  exact absurd (hsame.trans hbefore) (by decide)

end World

end IshGo.Guest
