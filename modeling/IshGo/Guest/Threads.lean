/-
# `IshGo.Guest.Threads` — threads of one program, and a single one

The calls of `IshGo.Kernel.SharedCalls`, issued by threads that `CloneForThread` has made out of
one process, against the same calls issued in the same order by a single thread.

    memory, descriptors, actions    cells that all threads point to
    break, working directory        a copy in the kernel of each thread
-/
import IshGo.Guest.Scheduler
import IshGo.Kernel.SharedCalls

namespace IshGo.Guest

open I386 Kernel Lib Group

variable {a : ThreadStep} {j : Nat}
variable {as : List ThreadStep} {c : SharedCall}

/-! ## Runs -/

structure Group where
  world : World
  threads : List Nat

def Group.one (w : World) (i : Nat) : Group := ⟨w, [i]⟩

inductive ThreadStep where
  | clone (i : Nat) (pid childStack tls : U32)
  | call (i : Nat) (c : SharedCall)

def ThreadStep.thread : ThreadStep → Nat
  | clone i _ _ _ | call i _ => i

section Run
variable (host : Host) (isDir : Nat → List U8 → Bool)

def Group.step (g : Group) : ThreadStep → Group
  | .clone i pid childStack tls =>
    let r := g.world.cloneForThread i pid childStack tls
    ⟨r.2.addTask pid r.1, g.threads ++ [g.world.procs.next]⟩
  | .call i c => { g with world := g.world.leave i (c.run host isDir (g.world.enter i)) }

/-- The single thread.  Of a clone it sees what has become of the objects. -/
def ThreadStep.single (s : KState) : ThreadStep → KState
  | clone _ _ _ _ => { s with objs := (s.files.cloneForChild s.objs).2 }
  | call _ c => c.run host isDir s

def Always (P : Group → KState → ThreadStep → Prop) : List ThreadStep → Group → KState → Prop
  | [], _, _ => True
  | a :: as, g, s => P g s a ∧ Always P as (g.step host isDir a) (a.single host isDir s)

def Issued (g : Group) (_ : KState) (a : ThreadStep) : Prop := a.thread ∈ g.threads

instance (g : Group) (s : KState) (a : ThreadStep) : Decidable (Issued g s a) :=
  inferInstanceAs (Decidable (a.thread ∈ g.threads))

/-- What the step returns, and what every thread then sees, is what the single thread gets. -/
def AsOne (g : Group) (s : KState) (a : ThreadStep) : Prop :=
  (∀ i c, a = .call i c →
    ((g.step host isDir a).world.enter i).cpu.regs EAX = (a.single host isDir s).cpu.regs EAX) ∧
  ∀ j ∈ (g.step host isDir a).threads,
    Alike (a.single host isDir s) ((g.step host isDir a).world.enter j) ∧
      SameCopies (a.single host isDir s) ((g.step host isDir a).world.enter j)

/-- A call leaves break and working directory as they are, or there is no other thread. -/
def KeepsCopies (g : Group) (_ : KState) (a : ThreadStep) : Prop :=
  ∀ i c, a = .call i c →
    SameCopies (g.world.enter i) (c.run host isDir (g.world.enter i)) ∨ ∀ j ∈ g.threads, j = i

/-- The copies that a call looks at are those of the single thread. -/
def FindsCurrent (g : Group) (s : KState) (a : ThreadStep) : Prop :=
  ∀ i c, a = .call i c → c.Current s (g.world.enter i)

/-- The call returns the same, sets its own copy to the same, and all threads then see the same
memory, descriptors and actions. -/
def ReturnsAsOne (g : Group) (s : KState) (a : ThreadStep) : Prop :=
  (∀ i c, a = .call i c →
    SameReturn (a.single host isDir s) ((g.step host isDir a).world.enter i) ∧
      c.Leaves (a.single host isDir s) ((g.step host isDir a).world.enter i)) ∧
  ∀ j ∈ (g.step host isDir a).threads,
    Alike (a.single host isDir s) ((g.step host isDir a).world.enter j)

end Run

/-! ## The threads point to the same cells -/

/-- The threads are those of one program, and `s` is what they share. -/
structure Group.Shares (g : Group) (s : KState) : Prop where
  used : ∀ i ∈ g.threads, i < g.world.procs.next
  cells : ∀ i ∈ g.threads, ∀ j ∈ g.threads,
    (g.world.proc j).space = (g.world.proc i).space ∧
      (g.world.proc j).table = (g.world.proc i).table ∧
      (g.world.proc j).actions = (g.world.proc i).actions
  alike : ∀ i ∈ g.threads, Alike s (g.world.enter i)

/-- Every thread has the copies of `s`. -/
def Group.Agrees (g : Group) (s : KState) : Prop := ∀ i ∈ g.threads, SameCopies s (g.world.enter i)

theorem Group.shares_one {w : World} {i : Nat} (hi : i < w.procs.next) : (one w i).Shares (w.enter i) := by
  have hmem {j : Nat} (hj : j ∈ (one w i).threads) : j = i := List.mem_singleton.mp hj
  refine ⟨?_, ?_, ?_⟩
  · intro j hj
    rw [hmem hj]
    exact hi
  · intro j hj k hk
    rw [hmem hj, hmem hk]
    exact ⟨rfl, rfl, rfl⟩
  · intro j hj
    rw [hmem hj]
    exact Alike.refl _

theorem Group.agrees_one (w : World) (i : Nat) : (one w i).Agrees (w.enter i) := by
  intro j hj
  rw [List.mem_singleton.mp hj]
  exact SameCopies.refl _

/-! ## A call -/

namespace World
variable {w : World} {i : Nat} {s : KState}

theorem enter_leave_sibling (h : j ≠ i) (hspace : (w.proc j).space = (w.proc i).space)
    (htable : (w.proc j).table = (w.proc i).table)
    (hactions : (w.proc j).actions = (w.proc i).actions) :
    (w.leave i s).enter j =
      { s with cpu := (w.proc j).cpu, kern := (w.proc j).kern, calls := [] } := by
  simp only [enter, files, proc_leave_ne h, hspace, htable, hactions]
  simp only [leave, Heap.cell_set]

end World

section Step
variable (host : Host) (isDir : Nat → List U8 → Bool) {g : Group} {s : KState} {i : Nat}

theorem Group.enter_call_self (c : SharedCall) :
    (g.step host isDir (.call i c)).world.enter i =
      { c.run host isDir (g.world.enter i) with calls := [] } := World.enter_leave_self

theorem Group.Shares.enter_call_ne (h : g.Shares s) (hi : i ∈ g.threads) (c : SharedCall)
    (hj : j ∈ g.threads) (hne : j ≠ i) :
    (g.step host isDir (.call i c)).world.enter j =
      { c.run host isDir (g.world.enter i) with
        cpu := (g.world.proc j).cpu, kern := (g.world.proc j).kern, calls := [] } := by
  obtain ⟨hspace, htable, hactions⟩ := h.cells i hi j hj
  exact World.enter_leave_sibling hne hspace htable hactions

theorem Group.Shares.alike_call (h : g.Shares s) (hi : i ∈ g.threads)
    (hsame : Alike (c.run host isDir s) (c.run host isDir (g.world.enter i)))
    (hj : j ∈ g.threads) : Alike (c.run host isDir s) ((g.step host isDir (.call i c)).world.enter j) := by
  by_cases hne : j = i
  · subst hne
    rw [enter_call_self]
    exact ⟨hsame.mem, hsame.files, hsame.actions, hsame.objs, hsame.fs, hsame.tty⟩
  obtain ⟨b, e, d, hkern⟩ := c.run_kern host isDir s
  have hbefore := h.alike j hj
  rw [h.enter_call_ne host isDir hi c hj hne]
  refine ⟨hsame.mem, hsame.files, hsame.actions, hsame.objs, ?_, ?_⟩
  · rw [hkern]
    exact hbefore.fs
  · rw [hkern]
    exact hbefore.tty

theorem Group.Shares.call (h : g.Shares s) (hi : i ∈ g.threads)
    (hsame : Alike (c.run host isDir s) (c.run host isDir (g.world.enter i))) :
    (g.step host isDir (.call i c)).Shares (c.run host isDir s) where
  used := h.used
  cells := by
    -- a call does not change which cells its process points to
    have hcells {α : Type} (f : Process → α)
        (hf : ∀ (p : Process) (cpu : CPU) (kern : Kernel), f { p with cpu := cpu, kern := kern } = f p)
        (j : Nat) : f ((g.step host isDir (.call i c)).world.proc j) = f (g.world.proc j) :=
      Heap.map_cell_set f g.world.procs (hf _ _ _) j
    intro j hj k hk
    rw [hcells (·.space) (fun _ _ _ => rfl), hcells (·.space) (fun _ _ _ => rfl),
      hcells (·.table) (fun _ _ _ => rfl), hcells (·.table) (fun _ _ _ => rfl),
      hcells (·.actions) (fun _ _ _ => rfl), hcells (·.actions) (fun _ _ _ => rfl)]
    exact h.cells j hj k hk
  alike := fun _ hj => h.alike_call host isDir hi hsame hj

theorem Group.Shares.copies_call_ne (h : g.Shares s) (hi : i ∈ g.threads) (c : SharedCall)
    (hj : j ∈ g.threads) (hne : j ≠ i) :
    SameCopies (g.world.enter j) ((g.step host isDir (.call i c)).world.enter j) := by
  rw [h.enter_call_ne host isDir hi c hj hne]
  exact ⟨rfl, rfl, rfl, rfl⟩

/-! ## A clone -/

variable (pid childStack tls : U32)

theorem Group.enter_clone_old (hj : j < g.world.procs.next) :
    (g.step host isDir (.clone i pid childStack tls)).world.enter j =
      { g.world.enter j with objs := ((g.world.files i).cloneForChild g.world.objs).2 } := by
  have hproc : (g.step host isDir (.clone i pid childStack tls)).world.proc j = g.world.proc j :=
    Heap.cell_alloc_lt g.world.procs _ hj
  simp only [World.enter, World.files, hproc]
  rfl

theorem Group.proc_clone_new :
    (g.step host isDir (.clone i pid childStack tls)).world.proc g.world.procs.next =
      { Process.fresh (CPU.forThread (g.world.proc i).cpu childStack tls) (g.world.proc i).space
          (g.world.proc i).table (g.world.proc i).actions
          { (g.world.proc i).kern.cloneForThread pid with schedulerAware := true } pid
          (g.world.proc i).parentPID with } :=
  Heap.cell_alloc g.world.procs _

theorem Group.enter_clone_new :
    (g.step host isDir (.clone i pid childStack tls)).world.enter g.world.procs.next =
      { g.world.enter i with
        cpu := CPU.forThread (g.world.proc i).cpu childStack tls
        kern := { (g.world.proc i).kern.cloneForThread pid with schedulerAware := true }
        objs := ((g.world.files i).cloneForChild g.world.objs).2 } := by
  simp only [World.enter, World.files, proc_clone_new]
  rfl

theorem Group.mem_clone (hj : j ∈ (g.step host isDir (.clone i pid childStack tls)).threads) :
    j ∈ g.threads ∨ j = g.world.procs.next :=
  (List.mem_append.mp hj).imp_right List.mem_singleton.mp

theorem Group.Shares.objs_clone (h : g.Shares s) (hi : i ∈ g.threads) :
    ((g.world.files i).cloneForChild g.world.objs).2 = (s.files.cloneForChild s.objs).2 := by
  have hsame := h.alike i hi
  rw [← hsame.files, ← hsame.objs]
  rfl

theorem Group.Shares.clone (h : g.Shares s) (hi : i ∈ g.threads) :
    (g.step host isDir (.clone i pid childStack tls)).Shares
      (ThreadStep.single host isDir s (.clone i pid childStack tls)) where
  used := by
    intro j hj
    rcases mem_clone host isDir pid childStack tls hj with hj | rfl
    · exact Nat.lt_succ_of_lt (h.used j hj)
    · exact Nat.lt_succ_self _
  cells := by
    -- the cells of every thread are those of the one that makes the clone
    have hcells : ∀ j ∈ (g.step host isDir (.clone i pid childStack tls)).threads,
        ((g.step host isDir (.clone i pid childStack tls)).world.proc j).space =
            (g.world.proc i).space ∧
          ((g.step host isDir (.clone i pid childStack tls)).world.proc j).table =
            (g.world.proc i).table ∧
          ((g.step host isDir (.clone i pid childStack tls)).world.proc j).actions =
            (g.world.proc i).actions := by
      intro j hj
      rcases mem_clone host isDir pid childStack tls hj with hj | rfl
      · have hproc : (g.step host isDir (.clone i pid childStack tls)).world.proc j =
            g.world.proc j := Heap.cell_alloc_lt g.world.procs _ (h.used j hj)
        rw [hproc]
        exact h.cells i hi j hj
      · rw [proc_clone_new]
        exact ⟨rfl, rfl, rfl⟩
    intro j hj k hk
    obtain ⟨hspace, htable, hactions⟩ := hcells j hj
    obtain ⟨hspace', htable', hactions'⟩ := hcells k hk
    exact ⟨hspace'.trans hspace.symm, htable'.trans htable.symm, hactions'.trans hactions.symm⟩
  alike := by
    intro j hj
    rcases mem_clone host isDir pid childStack tls hj with hj | rfl
    · rw [enter_clone_old host isDir pid childStack tls (h.used j hj), h.objs_clone hi]
      exact (h.alike j hj).with_objs _
    · have hsame := h.alike i hi
      rw [enter_clone_new, h.objs_clone hi]
      exact ⟨hsame.mem, hsame.files, hsame.actions, rfl, hsame.fs, hsame.tty⟩

theorem Group.Agrees.clone (hagrees : g.Agrees s) (h : g.Shares s) (hi : i ∈ g.threads) :
    (g.step host isDir (.clone i pid childStack tls)).Agrees
      (ThreadStep.single host isDir s (.clone i pid childStack tls)) := by
  intro j hj
  rcases mem_clone host isDir pid childStack tls hj with hj | rfl
  · have hbefore := hagrees j hj
    rw [enter_clone_old host isDir pid childStack tls (h.used j hj)]
    exact ⟨hbefore.brk, hbefore.heapStart, hbefore.heapEnd, hbefore.cwd⟩
  · have hbefore := hagrees i hi
    rw [enter_clone_new]
    exact ⟨hbefore.brk, hbefore.heapStart, hbefore.heapEnd, hbefore.cwd⟩

/-! ## A step -/

theorem Group.Shares.returnsAsOne (h : g.Shares s) (ha : Issued g s a)
    (hcurrent : FindsCurrent g s a) :
    ReturnsAsOne host isDir g s a ∧ (g.step host isDir a).Shares (a.single host isDir s) := by
  cases a with
  | clone i pid childStack tls =>
    have hshares := h.clone host isDir pid childStack tls (i := i) ha
    exact ⟨⟨nofun, hshares.alike⟩, hshares⟩
  | call i c =>
    obtain ⟨hsame, hleaves⟩ := c.same host isDir (h.alike i ha) (hcurrent i c rfl)
    have hshares := h.call host isDir ha hsame.toAlike
    refine ⟨⟨?_, hshares.alike⟩, hshares⟩
    rintro i c ⟨⟩
    refine ⟨⟨hshares.alike i ha, ?_⟩, ?_⟩
    · rw [enter_call_self]
      exact hsame.eax
    · rw [enter_call_self]
      cases c with
      | _ => exact hleaves

theorem Group.Agrees.findsCurrent (h : g.Agrees s) (ha : Issued g s a) : FindsCurrent g s a := by
  rintro i c rfl
  exact (h i ha).current c

/-- Where all have the same copies, they still do after a step if it changes none, or if there is
nobody to miss the change; and only then. -/
theorem Group.Agrees.asOne_iff (hagrees : g.Agrees s) (h : g.Shares s)
    (ha : Issued g s a) : AsOne host isDir g s a ↔ KeepsCopies host isDir g s a := by
  obtain ⟨hreturns, hshares⟩ := h.returnsAsOne host isDir ha
    (hagrees.findsCurrent ha)
  cases a with
  | clone i pid childStack tls =>
    have hcopies := hagrees.clone host isDir pid childStack tls h (i := i) ha
    exact ⟨fun _ => nofun, fun _ => ⟨nofun, fun j hj => ⟨hshares.alike j hj, hcopies j hj⟩⟩⟩
  | call i c =>
    have hi : i ∈ g.threads := ha
    have hrun := SameCopies.run host isDir (h.alike i hi) (hagrees i hi) c
    constructor
    · rintro ⟨_, hafter⟩ i c ⟨⟩
      refine or_iff_not_imp_right.mpr fun hother => ?_
      obtain ⟨j, hj, hne⟩ : ∃ j ∈ g.threads, j ≠ i := by simpa using hother
      -- the other thread has the copies of the single one, before and after
      have hsingle : SameCopies s (c.run host isDir s) :=
        ((hagrees j hj).trans (h.copies_call_ne host isDir hi c hj hne)).trans (hafter j hj).2.symm
      exact ((hagrees i hi).symm.trans hsingle).trans hrun
    intro hkeeps
    refine ⟨fun i c hc => (hreturns.1 i c hc).1.eax, fun j hj => ⟨hshares.alike j hj, ?_⟩⟩
    by_cases hne : j = i
    · rw [hne, enter_call_self]
      exact ⟨hrun.brk, hrun.heapStart, hrun.heapEnd, hrun.cwd⟩
    rcases hkeeps i c rfl with hsame | halone
    · have hsingle : SameCopies (c.run host isDir s) s :=
        (hrun.trans hsame.symm).trans (hagrees i hi).symm
      exact (hsingle.trans (hagrees j hj)).trans (h.copies_call_ne host isDir hi c hj hne)
    · exact absurd (halone j hj) hne

/-! ## Runs of any length -/

theorem Group.Agrees.always_iff (hagrees : g.Agrees s) (h : g.Shares s)
    (has : Always host isDir Issued as g s) :
    Always host isDir (AsOne host isDir) as g s ↔
      Always host isDir (KeepsCopies host isDir) as g s := by
  induction as generalizing g s with
  | nil => exact Iff.rfl
  | cons a as ih =>
    obtain ⟨ha, has⟩ := has
    have hstep := hagrees.asOne_iff host isDir h ha
    have hshares := (h.returnsAsOne host isDir ha (hagrees.findsCurrent ha)).2
    constructor
    · rintro ⟨hone, hrest⟩
      exact ⟨hstep.mp hone, (ih (fun j hj => (hone.2 j hj).2) hshares has).mp hrest⟩
    · rintro ⟨hkeeps, hrest⟩
      have hone := hstep.mpr hkeeps
      exact ⟨hone, (ih (fun j hj => (hone.2 j hj).2) hshares has).mpr hrest⟩

theorem Group.Shares.always_returns (h : g.Shares s)
    (has : Always host isDir Issued as g s) (hcurrent : Always host isDir FindsCurrent as g s) :
    Always host isDir (ReturnsAsOne host isDir) as g s := by
  induction as generalizing g s with
  | nil => trivial
  | cons a as ih =>
    obtain ⟨hreturns, hshares⟩ := h.returnsAsOne host isDir has.1 hcurrent.1
    exact ⟨hreturns, ih hshares has.2 hcurrent.2⟩

end Step

/-- Every interleaving of calls by the threads of a process gives what the single thread gets
exactly if no call changes break or working directory while there is another thread.  And whatever
has been changed, a call that finds the copies it looks at returns what the single thread gets. -/
theorem threads_as_one (host : Host) (isDir : Nat → List U8 → Bool) {w : World} {i : Nat}
    (hi : i < w.procs.next) (as : List ThreadStep)
    (has : Always host isDir Issued as (.one w i) (w.enter i)) :
    (Always host isDir (AsOne host isDir) as (.one w i) (w.enter i) ↔
      Always host isDir (KeepsCopies host isDir) as (.one w i) (w.enter i)) ∧
    (Always host isDir FindsCurrent as (.one w i) (w.enter i) →
      Always host isDir (ReturnsAsOne host isDir) as (.one w i) (w.enter i)) := by
  have hshares := Group.shares_one hi
  exact ⟨(Group.agrees_one w i).always_iff host isDir hshares has, hshares.always_returns host isDir has⟩

/-! ## Two threads -/

/-- A program with the text `/a` at 16, on a host where every name is a directory. -/
def twoNames : World :=
  let data : U32 → U8 := fun x => if x = 16 then 47 else if x = 17 then 97 else 0
  .start ⟨CPU.new, { Memory.new 64 with data := data }, 0⟩ none Objects.new

theorem threads_as_one_reading :
    Always Host.silent (fun _ _ => true) (AsOne Host.silent fun _ _ => true)
      [.clone 0 2 0 0, .call 1 (.getcwd 32 16), .call 0 (.close 1)] (.one twoNames 0)
      (twoNames.enter 0) := by
  refine (threads_as_one Host.silent (fun _ _ => true) (by decide) _ ?_).1.mpr ?_
  · exact ⟨by decide, by decide, by decide, trivial⟩
  refine ⟨nofun, ?_, ?_, trivial⟩
  · rintro i c ⟨⟩
    exact Or.inl ⟨rfl, rfl, rfl, rfl⟩
  · rintro i c ⟨⟩
    exact Or.inl ⟨rfl, rfl, rfl, rfl⟩

/-- One thread changes the working directory, and the other asks for it. -/
def chdirElsewhere : List ThreadStep :=
  [.clone 0 2 0 0, .call 1 (.chdir 16), .call 0 (.getcwd 32 2)]

/-- `/` has room in two bytes, `/a` has not. -/
theorem getcwd_of_other_thread :
    Always Host.silent (fun _ _ => true) Issued chdirElsewhere (.one twoNames 0) (twoNames.enter 0) ∧
      ((chdirElsewhere.foldl (Group.step Host.silent fun _ _ => true) (.one twoNames 0)).world.enter
        0).cpu.regs EAX = 32 ∧
      (chdirElsewhere.foldl (ThreadStep.single Host.silent fun _ _ => true) (twoNames.enter 0)).cpu.regs
        EAX = efault ∧
      ¬ Always Host.silent (fun _ _ => true) (AsOne Host.silent fun _ _ => true) chdirElsewhere
        (.one twoNames 0) (twoNames.enter 0) := by
  have hthreads : ((chdirElsewhere.foldl (Group.step Host.silent fun _ _ => true)
      (.one twoNames 0)).world.enter 0).cpu.regs EAX = 32 := by decide +kernel
  have hsingle : (chdirElsewhere.foldl (ThreadStep.single Host.silent fun _ _ => true)
      (twoNames.enter 0)).cpu.regs EAX = efault := by decide +kernel
  refine ⟨⟨by decide, by decide, by decide, trivial⟩, hthreads, hsingle, ?_⟩
  rintro ⟨_, _, ⟨hreturn, _⟩, _⟩
  have hsame := hreturn 0 (.getcwd 32 2) rfl
  exact absurd (hthreads.symm.trans (hsame.trans hsingle)) (by decide)

end IshGo.Guest
