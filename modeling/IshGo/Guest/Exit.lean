/-
# `IshGo.Guest.Exit` — the descriptors of a process that has exited

A process that exits through `exit` or `exit_group` closes its descriptors.  Two things can
leave descriptors behind.
-/
import IshGo.Guest.Invariant

namespace IshGo.Guest

open I386 Kernel Lib List

variable {C : World → Prop} {f : Files} {w : World}

namespace World

/-! ## The conditions -/

def kills (signal : Nat) (action : SignalAction) : Bool :=
  action.handler = 0 ∧ ignored signal = false

/-- The system call that the next instruction of a process makes. -/
def request (w : World) (i : Nat) : Option Request :=
  match I386.step (w.machine i) with
  | .ok .int80 m => some (decode m.regs)
  | _ => none

/-- The step of a process neither kills it while it has descriptors, nor installs one in
the table of a dead process. -/
def calm (w : World) (i : Nat) : Bool :=
  let r := w.takeNext i
  match r.1 with
  | some (signal, action) =>
    kills signal action = false ∨ (r.2.proc i).kern.thread ∨ (r.2.files i).fds.entries = []
  | none => (r.2.request i).all fun q => q.installs = false ∨ r.2.shared i = false

/-- `calm`, for the process that runs next. -/
def orderly (w : World) (env : Env) : Bool :=
  let r := w.pick env
  r.1.all fun i => r.2.calm i

/-- The parent of a thread that a system call makes holds no end of a pipe. -/
def sparing (w : World) (i : Nat) : Request → Bool
  | .task (.clone _ _ _ _ _) => (w.runnable (w.proc i).pid).all fun k => (w.files k).held = []
  | _ => true

/-- The step of a process creates no thread of a process with pipes. -/
def thrifty (w : World) (i : Nat) : Bool :=
  let r := w.takeNext i
  r.1.isSome || (r.2.request i).all (r.2.sparing i)

/-- `thrifty`, for the process that runs next. -/
def tidy (w : World) (env : Env) : Bool :=
  let r := w.pick env
  r.1.all fun i => r.2.thrifty i

/-! ## The step of a process -/

section

variable {strict : Prop} {i : Nat}

theorem putMachine_proc {α : Type} (f : Process → α) (hf : ∀ p cpu, f { p with cpu := cpu } = f p)
    (w : World) (i : Nat) (m : Machine) (j : Nat) :
    f ((w.putMachine i m).proc j) = f (w.proc j) :=
  w.procs.map_cell_set f (hf (w.proc i) m.toCPU) j

theorem putMachine_shared (w : World) (i : Nat) (m : Machine) (j : Nat) :
    (w.putMachine i m).shared j = w.shared j := by
  have htable : ∀ k, ((w.putMachine i m).proc k).table = (w.proc k).table :=
    putMachine_proc Process.table (fun _ _ => rfl) w i m
  have hdead : ∀ k, (w.putMachine i m).dead k = w.dead k :=
    putMachine_proc (fun p => decide (p.state = .exited ∧ p.kern.thread = false)) (fun _ _ => rfl) w i m
  simp only [shared, hdead, htable]
  rfl

theorem putMachine_files (w : World) (i : Nat) (m : Machine) (j : Nat) :
    (w.putMachine i m).files j = w.files j :=
  putMachine_proc (fun p => w.tables.cell p.table) (fun _ _ => rfl) w i m j

theorem putMachine_runnable (w : World) (i : Nat) (m : Machine) (pid : U32) :
    (w.putMachine i m).runnable pid = w.runnable pid := by
  have hstate : ∀ k, ((w.putMachine i m).proc k).state = (w.proc k).state :=
    putMachine_proc Process.state (fun _ _ => rfl) w i m
  simp only [runnable, hstate]
  rfl

theorem putMachine_regs (w : World) (i : Nat) (m : Machine) :
    ((w.putMachine i m).proc i).cpu.regs = m.regs := by
  simp only [putMachine, proc, Heap.cell_set]

theorem InvAt.finish (h : InvAt strict w i) (startEIP : U32) : InvAt strict (w.finish i startEIP).2 i := by
  have hcount := h.countProcess
  simp only [World.finish]
  split
  · exact hcount.setState (nomatch ·)
  split
  · exact hcount.closeOnExit.1.exited hcount.closeOnExit.2
  · split
    · exact hcount.faulted _
    · exact hcount

theorem InvAt.killed (h : InvAt strict w i) (signal : Nat)
    (he : (w.proc i).kern.thread = false → (w.files i).Empty) : InvAt strict (w.killed i signal).2 i := by
  refine InvAt.exited (h.setProc_same rfl rfl rfl) ?_
  simp only [World.setProc, World.files, World.proc, Heap.cell_set]
  exact he

theorem InvAt.takeSignal (h : InvAt strict w i) {signal : Nat} {action : SignalAction}
    (he : kills signal action = true → (w.proc i).kern.thread = false → (w.files i).Empty) :
    InvAt strict (w.takeSignal i signal action).2 i := by
  rw [World.takeSignal]
  split
  · rename_i hhandler
    split
    · exact h
    · rename_i hignored
      exact h.killed signal (he (decide_eq_true ⟨hhandler, Bool.eq_false_iff.mpr hignored⟩))
  have hleave := h.leave_aside (allows_deliverSignal (w.enter i) signal action)
  simp only
  split
  · exact hleave
  · exact hleave.faulted _

theorem noPipes_of_held (h : f.held = []) : f.NoPipes := by
  intro fd id hlook
  have hmem : id ∈ f.held := Files.pipeEnd_subset_held hlook mem_cons_self
  rw [h] at hmem
  cases hmem

theorem InvAt.runInstruction (h : InvAt strict w i) (env : Env)
    (hcalm : ∀ q, w.request i = some q → q.installs = true → w.shared i = false)
    (htidy : strict → ∀ q, w.request i = some q → w.sparing i q = true) :
    InvAt strict (w.runInstruction env i).2 i := by
  simp only [World.runInstruction]
  split
  · exact (h.putMachine _).faulted _
  · exact (h.putMachine _).finish _
  rename_i m hstep
  have hreq : w.request i = some (decode m.regs) := by
    rw [request, hstep]
  have hhandle : InvAt strict ((w.putMachine i m).handle env i) i := by
    refine (h.putMachine m).handle env ?_ ?_
    · rw [putMachine_regs, putMachine_shared]
      exact hcalm _ hreq
    intro hs flags childStack parentTID childTID tls hclone k hk
    rw [putMachine_regs] at hclone
    rw [putMachine_proc Process.pid (fun _ _ => rfl), putMachine_runnable] at hk
    rw [putMachine_files]
    have hspare := htidy hs _ hreq
    rw [hclone, sparing, hk] at hspare
    exact noPipes_of_held (of_decide_eq_true hspare)
  split
  · exact hhandle
  · exact hhandle.finish _

theorem InvAt.takeNext (h : InvAt strict w i) : InvAt strict (w.takeNext i).2 i := by
  have hrunning : InvAt strict (w.setState i .running) i := h.setState (nomatch ·)
  exact hrunning.leave_aside (allows_takePendingSignal _)

theorem empty_of_entries (h : f.fds.entries = []) : f.Empty := by
  intro fd
  refine AList.lookup_eq_none.mpr fun hmem => ?_
  obtain ⟨e, he, _⟩ := mem_map.mp hmem
  rw [h] at he
  cases he

theorem InvAt.runProcess (h : InvAt strict w i) (env : Env) (hcalm : w.calm i = true)
    (hthrifty : strict → w.thrifty i = true) : InvAt strict (w.runProcess env i).2 i := by
  have hnext := h.takeNext
  simp only [World.runProcess]
  simp only [calm] at hcalm
  cases hsignal : (w.takeNext i).1 with
  | some taken =>
    obtain ⟨signal, action⟩ := taken
    simp only [hsignal, decide_eq_true_eq] at hcalm
    refine hnext.takeSignal fun hkills hthread => ?_
    rcases hcalm with hno | hthread' | hempty
    · rw [hkills] at hno
      cases hno
    · rw [hthread] at hthread'
      cases hthread'
    · exact empty_of_entries hempty
  | none =>
    simp only [hsignal] at hcalm
    refine hnext.runInstruction env (fun q hq hinstalls => ?_) (fun hs q hq => ?_)
    · rw [hq] at hcalm
      rcases of_decide_eq_true hcalm with hno | hshared
      · rw [hinstalls] at hno
        cases hno
      · exact hshared
    · have hspare := hthrifty hs
      simp only [thrifty, hsignal, hq] at hspare
      exact hspare

theorem InvAt.stepProcess (h : InvAt strict w i) (env : Env) (hstate : (w.proc i).state ≠ .blocked)
    (hcalm : w.calm i = true) (hthrifty : strict → w.thrifty i = true) :
    InvAt strict (w.stepProcess env i).2 i := by
  rw [World.stepProcess]
  cases hs : (w.proc i).state with
  | exited => exact h
  | faulted => exact h
  | blocked => exact absurd hs hstate
  | ready | running => exact h.runProcess env hcalm hthrifty

/-! ## Turns and runs -/

theorem Inv.pickLoop (env : Env) (l : List U32) :
    ∀ w : World, Inv strict w → Inv strict (pickLoop env l w).2 ∧
      ∀ i, (pickLoop env l w).1 = some i →
        i < (pickLoop env l w).2.procs.next ∧ ((pickLoop env l w).2.proc i).state ≠ .blocked := by
  induction l with
  | nil => exact fun w h => ⟨h, fun i hi => by cases hi⟩
  | cons pid rest ih =>
    intro w h
    rw [World.pickLoop]
    cases ht : w.tasks pid with
    | none => exact ih w h
    | some t =>
      have hat : InvAt strict w t.process := ⟨h, h.task pid t ht⟩
      have hresume := hat.tryResumeBlocked env
      simp only
      split
      · exact ih w h
      split
      · split
        · have hready : InvAt strict ((w.tryResumeBlocked env t.process).2.setState t.process .ready)
              t.process := hresume.setState (nomatch ·)
          refine ⟨hready.toInv, fun i hi => ?_⟩
          cases hi
          refine ⟨hready.lt, ?_⟩
          simp only [World.setState, World.setProc, World.proc, Heap.cell_set]
          intro hblocked
          cases hblocked
        · exact ih _ hresume.toInv
      · rename_i hblocked
        refine ⟨h, fun i hi => ?_⟩
        cases hi
        exact ⟨hat.lt, hblocked⟩

theorem Inv.step (h : Inv strict w) (env : Env) (hcalm : w.orderly env = true)
    (htidy : strict → w.tidy env = true) : Inv strict (w.step env).2 := by
  obtain ⟨hpick, hpicked⟩ : Inv strict (w.pick env).2 ∧ ∀ i, (w.pick env).1 = some i →
      i < (w.pick env).2.procs.next ∧ ((w.pick env).2.proc i).state ≠ .blocked :=
    Inv.pickLoop env w.order w h
  simp only [World.step]
  split
  · exact h
  cases hi : (w.pick env).1 with
  | none => exact hpick
  | some i =>
    obtain ⟨hlt, hstate⟩ := hpicked i hi
    simp only [orderly, hi] at hcalm
    simp only [tidy, hi] at htidy
    have hstep : InvAt strict ((w.pick env).2.stepProcess env i).2 i :=
      InvAt.stepProcess ⟨hpick, hlt⟩ env hstate hcalm htidy
    simp only
    split
    · exact hstep.toInv.of_eq rfl rfl rfl (Std.Refl.refl _) rfl
    · exact hstep.toInv

theorem Inv.start (image : Image) (tty : Option Nat) {objs : Objects} (hp : objs.nextPipe = 0) :
    Inv strict (World.start image tty objs) where
  table := fun _ _ => Nat.zero_lt_one
  task := by
    intro pid t ht
    simp only [World.start] at ht
    split at ht
    · cases ht
      exact Nat.zero_lt_one
    · cases ht
  counted :=
    ⟨nodup_nil, fun _ hid => (nomatch hid), fun p hlt => absurd hlt (by show ¬ p < objs.nextPipe; omega)⟩
  released := fun _ _ hd => nomatch (of_decide_eq_true hd).1
  leaked := fun _ => rfl

theorem Reach.inv {env : Env} (hcalm : ∀ w, C w → w.orderly env = true)
    (htidy : strict → ∀ w, C w → w.tidy env = true) (h : Reach env C w) : Inv strict w := by
  induction h with
  | start image tty hp => exact Inv.start image tty hp
  | step _ hC ih => exact ih.step env (hcalm _ hC) fun hs => htidy hs _ hC
  | terminal id t _ ih => exact ih.of_eq rfl rfl rfl ⟨fun _ _ => rfl, rfl, rfl, rfl⟩ rfl

/-! ## What a dead process holds -/

def liveTables (w : World) : List Nat :=
  (range w.tables.next).filter fun t =>
    (range w.procs.next).all fun j => w.dead j = false ∨ (w.proc j).table ≠ t

/-- How many entries of these tables hold a read handle, or a write handle, of the pipe. -/
def liveHolders (w : World) (p : Nat) (write : Bool) : Nat :=
  (w.liveTables.flatMap fun t => (w.tables.cell t).fds.entries).countP fun e =>
    w.objs.holds p write e.2

/-- How many of the handles that `CloneForThread` has dropped are ends of the pipe. -/
def droppedEnds (w : World) (p : Nat) (write : Bool) : Nat := w.leaked.countP (w.objs.isEnd p write)

theorem Inv.held_dead (h : Inv strict w) {t : Nat}
    (ht : ((range w.procs.next).all fun j => w.dead j = false ∨ (w.proc j).table ≠ t) = false) :
    (w.tables.cell t).held = [] := by
  obtain ⟨j, hj, hboth⟩ := all_eq_false.mp ht
  simp only [decide_eq_true_eq, not_or, Bool.not_eq_false, ne_eq, not_not] at hboth
  have hempty := h.released j (mem_range.mp hj) hboth.1
  rw [files, hboth.2] at hempty
  rw [Files.held, hempty.fds]
  rfl

theorem Inv.count (h : Inv strict w) {p : Nat} (hp : p < w.objs.nextPipe) (write : Bool) :
    w.objs.count p write = w.liveHolders p write + w.droppedEnds p write := by
  have hlive : w.tables.gather Files.held =
      (w.liveTables.flatMap fun t => (w.tables.cell t).fds.entries).flatMap fun e => e.2.pipeEnd := by
    rw [flatMap_assoc]
    exact w.tables.gather_filter Files.held fun t ht => h.held_dead ht
  rw [h.counted.count p hp write, countP_append, hlive, System.countP_pipeEnds]
  exact Int.natCast_add _ _

/-- In runs of orderly turns a process that has exited, and is not a thread, has no
descriptor, and the counts of every pipe are those of the other tables and of the dropped
handles.  If the turns are tidy too, there are no dropped handles. -/
theorem exited_holds_nothing (env : Env) :
    (∀ w, Reach env (fun w => w.orderly env = true) w →
      (∀ i < w.procs.next, (w.proc i).state = .exited → (w.proc i).kern.thread = false →
        (w.files i).fds = ∅) ∧
      ∀ p < w.objs.nextPipe, ∀ write,
        w.objs.count p write = w.liveHolders p write + w.droppedEnds p write) ∧
    ∀ w, Reach env (fun w => w.orderly env = true ∧ w.tidy env = true) w →
      (∀ i < w.procs.next, (w.proc i).state = .exited → (w.proc i).kern.thread = false →
        (w.files i).fds = ∅) ∧
      ∀ p < w.objs.nextPipe, ∀ write, w.objs.count p write = w.liveHolders p write := by
  have released : ∀ {strict : Prop} {w : World}, Inv strict w → ∀ i < w.procs.next,
      (w.proc i).state = .exited → (w.proc i).kern.thread = false → (w.files i).fds = ∅ :=
    fun h i hi hs ht => (h.released i hi (decide_eq_true ⟨hs, ht⟩)).fds
  constructor
  · intro w hreach
    have hinv : Inv False w := hreach.inv (fun _ hC => hC) False.elim
    exact ⟨released hinv, fun p hp write => hinv.count hp write⟩
  intro w hreach
  have hinv : Inv True w := hreach.inv (fun _ hC => hC.1) fun _ _ hC => hC.2
  refine ⟨released hinv, fun p hp write => ?_⟩
  rw [hinv.count hp write, droppedEnds, hinv.leaked trivial]
  exact Int.add_zero _

end

/-- A host that refuses everything, services that do nothing, and no images. -/
def idle : Env :=
  { host := Host.silent
    services := ⟨fun _ => pure (), fun _ => inferInstance⟩
    load := fun _ _ _ _ => .error .notExist }

/-- A program at address `0`, about to make the system call `pipe(32)`. -/
def program (code : List U8) : World :=
  let regs : Reg → U32 := fun r => if r = EAX then 42 else if r = EBX then 32 else 15
  start ⟨{ CPU.new with regs := regs },
    { Memory.new 64 with data := fun a => code.getD a.toNat 0 }, 0⟩ none Objects.new

def turns : Nat → World → World
  | 0, w => w
  | n + 1, w => turns n (w.step idle).2

theorem reach_turns (h : Reach idle C w) (n : Nat)
    (hC : ∀ m < n, C (turns m w)) : Reach idle C (turns n w) := by
  induction n generalizing w with
  | zero => exact h
  | succ n ih =>
    refine ih (h.step (hC 0 (Nat.succ_pos n))) fun m hm => ?_
    exact hC (m + 1) (Nat.succ_lt_succ hm)

/-- `pipe`, and `exit(32)`: `INT 0x80; MOV EAX, 1; INT 0x80`. -/
def exiting : World := program [0xCD, 0x80, 0xB8, 0x01, 0, 0, 0, 0xCD, 0x80]

theorem exited_holds_nothing_exiting :
    ((turns 3 exiting).proc 0).state = .exited ∧ (turns 1 exiting).objs.count 0 true = 1 ∧
      ((turns 3 exiting).files 0).fds = ∅ ∧
      (turns 3 exiting).objs.count 0 true = (turns 3 exiting).liveHolders 0 true := by
  have hreach : Reach idle (fun w => w.orderly idle = true ∧ w.tidy idle = true) (turns 3 exiting) :=
    reach_turns (.start _ none rfl) 3 (by decide +kernel)
  have hstate : ((turns 3 exiting).proc 0).state = .exited := by decide +kernel
  obtain ⟨htable, hcount⟩ := (exited_holds_nothing idle).2 (turns 3 exiting) hreach
  exact ⟨hstate, by decide +kernel, htable 0 (by decide +kernel) hstate (by decide +kernel),
    hcount 0 (by decide +kernel) true⟩

/-- `pipe`, and `kill(0, 15)`: `INT 0x80; MOV EAX, 37; MOV EBX, 0; INT 0x80`. -/
def killing : World :=
  program [0xCD, 0x80, 0xB8, 0x25, 0, 0, 0, 0xBB, 0, 0, 0, 0, 0xCD, 0x80]

/-- The process is killed by a signal, and its pipe keeps both ends. -/
theorem killed_keeps_descriptors :
    Reach idle (fun _ => True) (turns 5 killing) ∧ ((turns 5 killing).proc 0).state = .exited ∧
      ((turns 5 killing).proc 0).kern.thread = false ∧
      ((turns 5 killing).files 0).fds.entries = [⟨1, .pipe 1⟩, ⟨0, .pipe 0⟩] ∧
      (turns 5 killing).objs.count 0 true = 1 ∧ (turns 5 killing).objs.count 0 false = 1 := by
  refine ⟨reach_turns (.start _ none rfl) 5 fun _ _ => trivial, ?_⟩
  decide +kernel

end World

end IshGo.Guest
