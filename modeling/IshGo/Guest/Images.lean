/-
# `IshGo.Guest.Images` — handlers, and the image they were installed for

`execve` gives a process a new image, and leaves its kernel and with it the signal actions.
So a handler is an address of the image that runs only as long as nobody with a handler calls
`execve`, and no thread with another image installs one for all.
-/
import IshGo.Guest.Exit
import IshGo.Guest.Acts
import IshGo.Kernel.CallFrame
import IshGo.Kernel.Pending

namespace IshGo.Guest

open I386 Kernel Lib Function

variable {a : SignalAction} {actionAddr oldActionAddr signal : U32}
variable {w w' w₀ : World} {i : Nat} {P : Nat → Nat → Nat → Prop}
variable {p : Process} {pid size : U32} {s : KState} {α : Type}

/-- Neither the default action nor `SIG_IGN`. -/
def Caught (a : SignalAction) : Prop := a.handler ≠ 0 ∧ a.handler ≠ 1

instance (a : SignalAction) : Decidable (Caught a) := inferInstanceAs (Decidable (_ ∧ _))

structure Ledger where
  time : Nat
  /-- what a process runs -/
  image : Nat → Nat
  /-- when an entry of a table of actions was installed -/
  stamp : Nat → U32 → Nat
  /-- what the process ran that installed it -/
  origin : Nat → U32 → Nat

namespace Ledger

def new : Ledger := ⟨0, fun _ => 0, fun _ _ => 0, fun _ _ => 0⟩

/-- Process `i` has a new image. -/
def executed (l : Ledger) (i : Nat) : Ledger :=
  { l with time := l.time + 1, image := update l.image i (l.time + 1) }

/-- Process `i` has installed an entry of table `c`. -/
def installed (l : Ledger) (i c : Nat) (signal : U32) : Ledger :=
  { l with
    time := l.time + 1
    stamp := update l.stamp c (update (l.stamp c) signal (l.time + 1))
    origin := update l.origin c (update (l.origin c) signal (l.image i)) }

/-- A child runs the image of process `i`; its table `c'` is what `c` is. -/
def spawned (l : Ledger) (i child c c' : Nat) : Ledger :=
  { l with
    image := update l.image child (l.image i)
    stamp := update l.stamp c' (l.stamp c)
    origin := update l.origin c' (l.origin c) }

end Ledger

inductive ImageEvent where
  | executed (i : Nat)
  | installed (i : Nat) (action : SignalAction)

namespace World

def action (w : World) (i : Nat) (signal : U32) : SignalAction :=
  w.actions.cell (w.proc i).actions signal

structure SameActions (w w' : World) : Prop where
  next : w'.procs.next = w.procs.next
  cell : ∀ j, (w'.proc j).actions = (w.proc j).actions
  actions : w'.actions = w.actions

/-- Traces of the calls, each with a condition on the state before it.  What has no part in
this, a failed call included, is one of the `other` changes. -/
inductive ImageTrace (C : Ledger → World → ImageEvent → Prop) (w₀ : World) : Ledger → World → Prop
  | refl : ImageTrace C w₀ .new w₀
  | sigaction {l : Ledger} {w : World} {i : Nat} {action : SignalAction}
      (signal actionAddr oldActionAddr size : U32) : ImageTrace C w₀ l w → i < w.procs.next →
      (w.enter i).installs signal actionAddr oldActionAddr size = some action →
      C l w (.installed i action) →
      ImageTrace C w₀ (l.installed i (w.proc i).actions signal)
        (w.leave i ((w.enter i).rtSigaction signal actionAddr oldActionAddr size))
  | fork {l : Ledger} {w : World} {i : Nat} (pid : U32) : ImageTrace C w₀ l w →
      w.runnable pid = some i → i < w.procs.next →
      ImageTrace C w₀ (l.spawned i w.procs.next (w.proc i).actions w.actions.next) (w.fork pid).2
  | clone {l : Ledger} {w : World} {i : Nat} {pid tid : U32} {caller : Nat}
      {flags childStack parentTID childTID tls : U32} : ImageTrace C w₀ l w →
      w.runnable pid = some i → i < w.procs.next →
      (w.clone pid caller flags childStack parentTID childTID tls).1 = some tid →
      ImageTrace C w₀ (l.spawned i w.procs.next (w.proc i).actions (w.proc i).actions)
        (w.clone pid caller flags childStack parentTID childTID tls).2
  | execve {l : Ledger} {w : World} {i : Nat} (image : Image) : ImageTrace C w₀ l w →
      i < w.procs.next → C l w (.executed i) → ImageTrace C w₀ (l.executed i) (w.install i image)
  | other {l : Ledger} {w w' : World} : ImageTrace C w₀ l w → SameActions w w' →
      ImageTrace C w₀ l w'

/-- Every handler stands with its image, its stamp and its origin in a relation. -/
def Each (P : Nat → Nat → Nat → Prop) (l : Ledger) (w : World) : Prop :=
  ∀ i < w.procs.next, ∀ signal, Caught (w.action i signal) →
    P (l.image i) (l.stamp (w.proc i).actions signal) (l.origin (w.proc i).actions signal)

/-- Every handler of a process was installed since the last `execve` of the process. -/
def Recent : Ledger → World → Prop := Each fun image stamp _ => image < stamp

/-- Every handler of a process was installed by a process that ran the same image. -/
def OfImage : Ledger → World → Prop := Each fun image _ origin => origin = image

def Clean (w : World) (i : Nat) : Prop := ∀ signal, ¬ Caught (w.action i signal)

def Alone (l : Ledger) (w : World) (i : Nat) : Prop :=
  ∀ j < w.procs.next, (w.proc j).actions = (w.proc i).actions → l.image j = l.image i

/-- No `execve` finds a handler. -/
def CleanExec (_ : Ledger) (w : World) : ImageEvent → Prop
  | .executed i => w.Clean i
  | .installed _ _ => True

/-- Nor does a process install a handler for tasks of another image. -/
def OwnOnly (l : Ledger) (w : World) : ImageEvent → Prop
  | .executed i => w.Clean i
  | .installed i action => Caught action → Alone l w i

/-! ## What the calls do to the actions -/

section Same
variable {w'' : World}

theorem SameActions.of_eq (hprocs : w'.procs = w.procs) (hactions : w'.actions = w.actions) :
    SameActions w w' :=
  ⟨by rw [hprocs], fun j => by rw [proc, proc, hprocs], hactions⟩

theorem SameActions.trans (h : SameActions w w') (h' : SameActions w' w'') : SameActions w w'' :=
  ⟨h'.next.trans h.next, fun j => (h'.cell j).trans (h.cell j), h'.actions.trans h.actions⟩

theorem SameActions.setProc (hp : p.actions = (w.proc i).actions) : SameActions w (w.setProc i p) :=
  ⟨rfl, fun j => Heap.map_cell_set Process.actions w.procs hp j, rfl⟩

theorem leave_actions (w : World) (i : Nat) (s : KState) (j : Nat) :
    ((w.leave i s).proc j).actions = (w.proc j).actions := leave_proc Process.actions rfl j

theorem SameActions.leave (h : ActionsAside (w.enter i) s) : SameActions w (w.leave i s) := by
  refine ⟨rfl, leave_actions w i s, ?_⟩
  show w.actions.set (w.proc i).actions s.actions = w.actions
  rw [h]
  exact Heap.set_cell ..

theorem SameActions.runKernel (x : KernelM α)
    (h : ActionsAside (w.enter i) (after x (w.enter i))) : SameActions w (w.runKernel i x).2 := by
  obtain ⟨s, hung, heq, rfl⟩ := w.runKernel_eq i x
  rw [heq]
  exact (SameActions.leave h).trans (.of_eq rfl rfl)

theorem SameActions.install (w : World) (i : Nat) (image : Image) : SameActions w (w.install i image) := by
  have hclose : SameActions w (w.leave i (w.enter i).closeCloexec) :=
    .leave (AllowsCalls.table (tableOnly_closeCloexec _))
  have hset : SameActions (w.leave i (w.enter i).closeCloexec)
      ((w.leave i (w.enter i).closeCloexec).setProc i
        (((w.leave i (w.enter i).closeCloexec).proc i).withImage image w.mems.next)) :=
    .setProc rfl
  exact hclose.trans (hset.trans (.of_eq rfl rfl))

theorem SameActions.action (h : SameActions w w') (j : Nat) (signal : U32) :
    w'.action j signal = w.action j signal := by
  rw [World.action, World.action, h.cell, h.actions]

/-- A new process, behind the others, whose actions are those of process `i` in table `c`. -/
structure Spawns (w w' : World) (i c : Nat) : Prop where
  next : w'.procs.next = w.procs.next + 1
  old : ∀ j < w.procs.next, (w'.proc j).actions = (w.proc j).actions
  new : (w'.proc w.procs.next).actions = c
  tables : ∀ c < w.actions.next, w'.actions.cell c = w.actions.cell c
  copy : w'.actions.cell c = w.actions.cell (w.proc i).actions
  grown : w.actions.next ≤ w'.actions.next
  here : c < w'.actions.next
  /-- it is a new table, or the one of process `i` -/
  table : w.actions.next ≤ c ∨ c = (w.proc i).actions

theorem Spawns.addTask {v : World} (hprocs : v.procs = w.procs) (pid : U32) {c : Nat}
    (hp : p.actions = c) (htables : ∀ c < w.actions.next, v.actions.cell c = w.actions.cell c)
    (hcopy : v.actions.cell c = w.actions.cell (w.proc i).actions)
    (hgrown : w.actions.next ≤ v.actions.next) (hhere : c < v.actions.next)
    (htable : w.actions.next ≤ c ∨ c = (w.proc i).actions) : Spawns w (v.addTask pid p) i c where
  next := congrArg (fun h => h.next + 1) hprocs
  old j hj := by
    have hcell : (v.addTask pid p).proc j = v.procs.cell j :=
      Heap.cell_alloc_lt v.procs _ (hprocs ▸ hj)
    rw [hcell, hprocs]
    rfl
  new := by
    rw [← hprocs]
    exact (congrArg Process.actions (Heap.cell_alloc v.procs _)).trans hp
  tables := htables
  copy := hcopy
  grown := hgrown
  here := hhere
  table := htable

theorem Spawns.fork (h : w.runnable pid = some i) : Spawns w (w.fork pid).2 i w.actions.next := by
  rcases w.fork_cases pid with heq | ⟨k, hk, heq⟩
  · unfold World.fork at heq
    rw [h] at heq
    exact absurd (congrArg (fun v => v.procs.next) heq) (Nat.succ_ne_self _)
  obtain rfl : i = k := Option.some.inj (h.symm.trans hk)
  rw [heq]
  refine Spawns.addTask ?_ _ ?_ ?_ ?_ ?_ ?_ ?_
  · rfl
  · rfl
  · intro c hc
    exact Heap.cell_alloc_lt w.actions _ hc
  · exact Heap.cell_alloc w.actions _
  · exact Nat.le_succ _
  · exact Nat.lt_succ_self _
  · exact Or.inl (Nat.le_refl _)

theorem Spawns.clone {tid : U32} {caller : Nat} {flags childStack parentTID childTID tls : U32}
    (h : w.runnable pid = some i) (hcell : (w.proc i).actions < w.actions.next)
    (hok : (w.clone pid caller flags childStack parentTID childTID tls).1 = some tid) :
    Spawns w (w.clone pid caller flags childStack parentTID childTID tls).2 i
      (w.proc i).actions := by
  rcases w.clone_cases pid caller flags childStack parentTID childTID tls with
    ⟨_, _, _, _, heq⟩ | ⟨j, _, hr, heq⟩
  · rw [heq] at hok
    cases hok
  cases h.symm.trans hr
  rw [heq]
  refine Spawns.addTask ?_ _ ?_ ?_ ?_ ?_ ?_ ?_
  · rfl
  · rfl
  · intro c _
    rfl
  · rfl
  · exact Nat.le_refl _
  · exact hcell
  · exact Or.inr rfl

theorem action_sigaction
    (h : (w.enter i).installs signal actionAddr oldActionAddr size = some a) (j : Nat) (n : U32) :
    (w.leave i ((w.enter i).rtSigaction signal actionAddr oldActionAddr size)).action j n =
      if (w.proc j).actions = (w.proc i).actions ∧ n = signal then a else w.action j n := by
  have hactions : ((w.enter i).rtSigaction signal actionAddr oldActionAddr size).actions =
      update (w.enter i).actions signal a := by
    rw [rtSigaction_actions, h, Option.elim_some]
  rw [action, leave_actions]
  show update w.actions.cell (w.proc i).actions
    ((w.enter i).rtSigaction signal actionAddr oldActionAddr size).actions (w.proc j).actions n = _
  rw [hactions]
  by_cases hj : (w.proc j).actions = (w.proc i).actions
  · rw [hj, update_self, update_apply]
    by_cases hn : n = signal
    · rw [if_pos hn, if_pos ⟨rfl, hn⟩]
    · rw [if_neg hn, if_neg fun hboth => hn hboth.2, action, hj]
      rfl
  · rw [update_of_ne hj, if_neg fun hboth => hj hboth.1]
    rfl

end Same

/-! ## What a step keeps -/

/-- The ledger speaks of the past, and every process has a table. -/
structure ImageInv (l : Ledger) (w : World) : Prop where
  image : ∀ i, l.image i ≤ l.time
  stamp : ∀ c signal, l.stamp c signal ≤ l.time
  origin : ∀ c signal, l.origin c signal ≤ l.time
  cells : ∀ i < w.procs.next, (w.proc i).actions < w.actions.next

section Step
variable {l : Ledger} {c : Nat}

theorem ImageInv.same (h : ImageInv l w) (hs : SameActions w w') : ImageInv l w' where
  image := h.image
  stamp := h.stamp
  origin := h.origin
  cells j hj := by
    rw [hs.cell, hs.actions]
    exact h.cells j (hs.next ▸ hj)

theorem ImageInv.leave (h : ImageInv l w) (i : Nat) (s : KState) : ImageInv l (w.leave i s) where
  image := h.image
  stamp := h.stamp
  origin := h.origin
  cells j hj := by
    rw [leave_actions]
    exact h.cells j hj

theorem ImageInv.executed (h : ImageInv l w) (i : Nat) : ImageInv (l.executed i) w where
  image := (forall_update_iff l.image fun _ t => t ≤ l.time + 1).mpr
    ⟨Nat.le_refl _, fun j _ => Nat.le_succ_of_le (h.image j)⟩
  stamp c signal := Nat.le_succ_of_le (h.stamp c signal)
  origin c signal := Nat.le_succ_of_le (h.origin c signal)
  cells := h.cells

theorem ImageInv.installed (h : ImageInv l w) (i c : Nat) (signal : U32) :
    ImageInv (l.installed i c signal) w := by
  -- one entry of one table changes
  have hentry : ∀ {f : Nat → U32 → Nat} {t : Nat}, (∀ c n, f c n ≤ l.time) → t ≤ l.time + 1 →
      ∀ c' n, update f c (update (f c) signal t) c' n ≤ l.time + 1 := by
    intro f t hf ht
    refine (forall_update_iff f fun _ g => ∀ n, g n ≤ l.time + 1).mpr ⟨?_, ?_⟩
    · refine (forall_update_iff (f c) fun _ t => t ≤ l.time + 1).mpr ⟨ht, ?_⟩
      exact fun n _ => Nat.le_succ_of_le (hf c n)
    · exact fun c' _ n => Nat.le_succ_of_le (hf c' n)
  exact ⟨fun j => Nat.le_succ_of_le (h.image j), hentry h.stamp (Nat.le_refl _),
    hentry h.origin (Nat.le_succ_of_le (h.image i)), h.cells⟩

theorem ImageInv.spawned (h : ImageInv l w) (hs : Spawns w w' i c) :
    ImageInv (l.spawned i w.procs.next (w.proc i).actions c) w' where
  image := (forall_update_iff l.image fun _ t => t ≤ l.time).mpr
    ⟨h.image i, fun j _ => h.image j⟩
  stamp := (forall_update_iff l.stamp fun _ g => ∀ n, g n ≤ l.time).mpr
    ⟨h.stamp _, fun d _ => h.stamp d⟩
  origin := (forall_update_iff l.origin fun _ g => ∀ n, g n ≤ l.time).mpr
    ⟨h.origin _, fun d _ => h.origin d⟩
  cells j hj := by
    rw [hs.next] at hj
    rcases Nat.lt_succ_iff_lt_or_eq.mp hj with hlt | rfl
    · rw [hs.old j hlt]
      exact (h.cells j hlt).trans_le hs.grown
    · rw [hs.new]
      exact hs.here

theorem Each.same (h : Each P l w) (hs : SameActions w w') : Each P l w' := by
  intro j hj signal hcaught
  rw [hs.action] at hcaught
  rw [hs.cell]
  exact h j (hs.next ▸ hj) signal hcaught

theorem Each.executed (h : Each P l w) (hclean : w.Clean i) : Each P (l.executed i) w := by
  intro j hj signal hcaught
  have hne : j ≠ i := by
    rintro rfl
    exact hclean signal hcaught
  have himage : (l.executed i).image j = l.image j := update_of_ne hne _ _
  rw [himage]
  exact h j hj signal hcaught

theorem Spawns.record (hs : Spawns w w' i c) (f : Nat → α) {d : Nat}
    (hd : d < w.actions.next) : update f c (f (w.proc i).actions) d = f d := by
  by_cases hdc : d = c
  · rcases hs.table with hnew | hown
    · omega
    · rw [hdc, update_self, hown]
  · exact update_of_ne hdc _ _

theorem Each.spawned (h : Each P l w) (hinv : ImageInv l w) (hi : i < w.procs.next)
    (hs : Spawns w w' i c) : Each P (l.spawned i w.procs.next (w.proc i).actions c) w' := by
  intro j hj signal hcaught
  simp only [Ledger.spawned]
  rw [hs.next] at hj
  rcases Nat.lt_succ_iff_lt_or_eq.mp hj with hlt | rfl
  · have hcell := hinv.cells j hlt
    rw [action, hs.old j hlt, hs.tables _ hcell] at hcaught
    rw [hs.old j hlt, update_of_ne (Nat.ne_of_lt hlt), hs.record l.stamp hcell, hs.record l.origin hcell]
    exact h j hlt signal hcaught
  · rw [action, hs.new, hs.copy] at hcaught
    rw [hs.new, update_self, update_self, update_self]
    exact h i hi signal hcaught

theorem Each.installed (h : Each P l w)
    (ha : (w.enter i).installs signal actionAddr oldActionAddr size = some a)
    (hown : Caught a → ∀ j < w.procs.next, (w.proc j).actions = (w.proc i).actions → P (l.image j) (l.time + 1) (l.image i)) :
    Each P (l.installed i (w.proc i).actions signal)
      (w.leave i ((w.enter i).rtSigaction signal actionAddr oldActionAddr size)) := by
  intro j hj n hcaught
  rw [action_sigaction ha] at hcaught
  rw [leave_actions]
  simp only [Ledger.installed]
  by_cases hsame : (w.proc j).actions = (w.proc i).actions
  · rw [hsame, update_self, update_self]
    by_cases hn : n = signal
    · rw [if_pos ⟨hsame, hn⟩] at hcaught
      rw [hn, update_self, update_self]
      exact hown hcaught j hj hsame
    · rw [if_neg fun hboth => hn hboth.2] at hcaught
      rw [update_of_ne hn, update_of_ne hn, ← hsame]
      exact h j hj n hcaught
  · rw [if_neg fun hboth => hsame hboth.1] at hcaught
    rw [update_of_ne hsame, update_of_ne hsame]
    exact h j hj n hcaught

end Step

/-! ## Whole runs -/

structure Pristine (w : World) : Prop where
  clean : ∀ i < w.procs.next, w.Clean i
  cells : ∀ i < w.procs.next, (w.proc i).actions < w.actions.next

/-- An event after which `P` holds of every handler, if it did before. -/
def Admits (P : Nat → Nat → Nat → Prop) (l : Ledger) (w : World) : ImageEvent → Prop
  | .executed i => w.Clean i
  | .installed i action => Caught action → ∀ j < w.procs.next,
      (w.proc j).actions = (w.proc i).actions → P (l.image j) (l.time + 1) (l.image i)

section Run
variable {C : Ledger → World → ImageEvent → Prop} {l : Ledger}

theorem ImageTrace.inv (h₀ : Pristine w₀) (h : ImageTrace C w₀ l w) : ImageInv l w := by
  induction h with
  | refl =>
    exact ⟨fun _ => Nat.le_refl _, fun _ _ => Nat.le_refl _, fun _ _ => Nat.le_refl _, h₀.cells⟩
  | sigaction signal actionAddr oldActionAddr size _ _ _ _ ih =>
    exact (ih.installed _ _ signal).leave _ _
  | fork pid _ hr _ ih => exact ih.spawned (Spawns.fork hr)
  | clone _ hr hi hok ih => exact ih.spawned (Spawns.clone hr (ih.cells _ hi) hok)
  | execve image _ _ _ ih => exact (ih.executed _).same (SameActions.install ..)
  | other _ hs ih => exact ih.same hs

theorem ImageTrace.each (h₀ : Pristine w₀)
    (hC : ∀ l w e, ImageInv l w → C l w e → Admits P l w e) (h : ImageTrace C w₀ l w) : Each P l w := by
  induction h with
  | refl => exact fun i hi signal hcaught => absurd hcaught (h₀.clean i hi signal)
  | sigaction signal actionAddr oldActionAddr size ht _ ha hc ih =>
    exact ih.installed ha (hC _ _ _ (ht.inv h₀) hc)
  | fork pid ht hr hi ih => exact ih.spawned (ht.inv h₀) hi (Spawns.fork hr)
  | clone ht hr hi hok ih =>
    exact ih.spawned (ht.inv h₀) hi (Spawns.clone hr ((ht.inv h₀).cells _ hi) hok)
  | execve image ht _ hc ih =>
    exact (ih.executed (hC _ _ _ (ht.inv h₀) hc)).same (SameActions.install ..)
  | other _ hs ih => exact ih.same hs

theorem Each.executed_iff (h : Each P l w) (hinv : ImageInv l w) (hi : i < w.procs.next)
    (hnew : ∀ stamp ≤ l.time, ∀ origin ≤ l.time, ¬ P (l.time + 1) stamp origin) (image : Image) :
    Each P (l.executed i) (w.install i image) ↔ w.Clean i := by
  have hsame := SameActions.install w i image
  constructor
  · intro hafter signal hcaught
    have hP := hafter i hi signal (by rw [hsame.action]; exact hcaught)
    have himage : (l.executed i).image i = l.time + 1 := update_self ..
    rw [himage] at hP
    exact hnew _ (hinv.stamp _ _) _ (hinv.origin _ _) hP
  · intro hclean
    exact (h.executed hclean).same hsame

theorem OfImage.installed_iff (h : OfImage l w)
    (ha : (w.enter i).installs signal actionAddr oldActionAddr size = some a) :
    OfImage (l.installed i (w.proc i).actions signal)
        (w.leave i ((w.enter i).rtSigaction signal actionAddr oldActionAddr size)) ↔
      (Caught a → Alone l w i) := by
  constructor
  · intro hafter hcaught j hj hsame
    have horigin := hafter j hj signal (by
      rw [action_sigaction ha, if_pos ⟨hsame, rfl⟩]
      exact hcaught)
    rw [leave_actions, hsame] at horigin
    simp only [Ledger.installed, update_self] at horigin
    exact horigin.symm
  · intro halone
    exact Each.installed h ha fun hcaught j hj hsame => (halone hcaught j hj hsame).symm

end Run

theorem deliverSignal_eip {s' : KState} {n : Nat} (h : s.deliverSignal n a = (.ok (), s')) :
    s'.cpu.eip = a.handler := by
  simp only [KState.deliverSignal] at h
  repeat' split at h
  all_goals cases h <;> rfl

/-- A signal that a process takes with a handler, and that is delivered, leads to where a
process with its image has said. -/
def OwnTransfers (l : Ledger) (w : World) : Prop :=
  ∀ i < w.procs.next, ∀ n a s, (w.enter i).takePendingSignal.1 = some (n, a) → Caught a →
    (w.enter i).takePendingSignal.2.deliverSignal n a = (.ok (), s) →
    s.cpu.eip = (w.action i (BitVec.ofNat 32 n)).handler ∧
      l.origin (w.proc i).actions (BitVec.ofNat 32 n) = l.image i

theorem OfImage.transfers {l : Ledger} {w : World} (h : OfImage l w) : OwnTransfers l w := by
  intro i hi n a s htake hcaught hdeliver
  obtain ⟨_, _, ha⟩ := takePendingSignal_some.mp htake
  have haction : w.action i (BitVec.ofNat 32 n) = a := ha.symm
  refine ⟨by rw [haction]; exact deliverSignal_eip hdeliver, ?_⟩
  exact h i hi _ (haction ▸ hcaught)

/-- After every trace of the calls: a handler is newer than the image of its process if no
`execve` has found one, and the image's own if moreover nobody has installed one for another
image; and these are the only calls after which it is not. -/
theorem handlers_of_image (C : Ledger → World → ImageEvent → Prop) (w₀ w : World) (l : Ledger)
    (h₀ : Pristine w₀) (h : ImageTrace C w₀ l w) :
    ((∀ l w e, C l w e → CleanExec l w e) → Recent l w) ∧
    ((∀ l w e, C l w e → OwnOnly l w e) → OfImage l w ∧ OwnTransfers l w) ∧
    (∀ i < w.procs.next, ∀ image,
      (Recent l w → (Recent (l.executed i) (w.install i image) ↔ w.Clean i)) ∧
      (OfImage l w → (OfImage (l.executed i) (w.install i image) ↔ w.Clean i))) ∧
    (∀ i < w.procs.next, ∀ signal actionAddr oldActionAddr size a,
      (w.enter i).installs signal actionAddr oldActionAddr size = some a → OfImage l w →
      (OfImage (l.installed i (w.proc i).actions signal)
          (w.leave i ((w.enter i).rtSigaction signal actionAddr oldActionAddr size)) ↔
        (Caught a → Alone l w i))) := by
  have hinv := h.inv h₀
  refine ⟨?_, ?_, ?_, ?_⟩
  · intro hC
    refine h.each h₀ fun l w e hinv hc => ?_
    have hclean := hC l w e hc
    cases e with
    | executed i => exact hclean
    | installed i action => exact fun _ j _ _ => Nat.lt_succ_of_le (hinv.image j)
  · intro hC
    have hown : OfImage l w := by
      refine h.each h₀ fun l w e _ hc => ?_
      have halone := hC l w e hc
      cases e with
      | executed i => exact halone
      | installed i action => exact fun hcaught j hj hsame => (halone hcaught j hj hsame).symm
    exact ⟨hown, hown.transfers⟩
  · intro i hi image
    refine ⟨fun hrecent => ?_, fun hown => ?_⟩
    · exact Each.executed_iff hrecent hinv hi (fun stamp hs _ _ => by omega) image
    · exact Each.executed_iff hown hinv hi (fun _ _ origin ho => by omega) image
  · intro i _ signal actionAddr oldActionAddr size a ha hown
    exact hown.installed_iff ha

/-! ## Runs of the scheduler -/

section Scheduler
variable {env : Env} {l : Ledger}

abbrev AnyImageTrace : World → Ledger → World → Prop := ImageTrace fun _ _ _ => True

theorem Act.imageTrace (hv : w.Valid) (h : Act env w w') (ht : AnyImageTrace w₀ l w) :
    ∃ l', AnyImageTrace w₀ l' w' := by
  have hother : ∀ {w'}, SameActions w w' → ∃ l', AnyImageTrace w₀ l' w' :=
    fun hs => ⟨l, ht.other hs⟩
  cases h with
  | own _ hp => exact hother (.setProc hp.actions)
  | @machine i m hi =>
    have hset : SameActions w (w.setProc i { w.proc i with cpu := m.toCPU }) := .setProc rfl
    exact hother (hset.trans (.of_eq rfl rfl))
  | @request i r hi _ =>
    cases r with
    | rtSigaction signal actionAddr oldActionAddr size =>
      cases ha : (w.enter i).installs signal actionAddr oldActionAddr size with
      | some a => exact ⟨_, ht.sigaction signal actionAddr oldActionAddr size hi ha trivial⟩
      | none =>
        refine hother (.leave ?_)
        show ((w.enter i).rtSigaction signal actionAddr oldActionAddr size).actions = _
        rw [rtSigaction_actions, ha, Option.elim_none]
    | _ => exact hother (.runKernel _ (Request.actionsAside env.host env.services (by nofun) _))
  | resumeFutex _ => exact hother (.leave (futexFrame_tryResumeBlockedFutex _ env.host).actions)
  | resumePipe b _ _ => exact hother (.runKernel _ (Stays.stays _))
  | take _ => exact hother (.leave (allows_takePendingSignal _))
  | deliver signal action _ => exact hother (.leave (allows_deliverSignal _ signal action))
  | closeOnExit _ => exact hother (.leave (AllowsCalls.table (tableOnly_closeOnExit _)))
  | fork pid =>
    cases hr : w.runnable pid with
    | none =>
      rw [World.fork, hr]
      exact ⟨l, ht⟩
    | some i => exact ⟨_, ht.fork pid hr (runnable_lt hv hr)⟩
  | clone pid caller flags childStack parentTID childTID tls =>
    rcases w.clone_cases pid caller flags childStack parentTID childTID tls with
      ⟨_, _, _, _, heq⟩ | ⟨_, _, hr, heq⟩
    · rw [heq]
      exact hother (.of_eq rfl rfl)
    · exact ⟨_, ht.clone hr (runnable_lt hv hr) (congrArg Prod.fst heq)⟩
  | store space asked addr value =>
    obtain ⟨mems, heq⟩ := w.storeWord_eq space asked addr value
    rw [heq]
    exact hother (.of_eq rfl rfl)
  | reap | tick | count => exact hother (.of_eq rfl rfl)
  | install image hi => exact ⟨_, ht.execve image hi trivial⟩

theorem start_pristine (image : Image) (tty : Option Nat) (objs : Objects) :
    Pristine (World.start image tty objs) :=
  ⟨fun _ _ _ hcaught => hcaught.1 rfl, fun _ _ => Nat.zero_lt_one⟩

theorem Reach.imageTrace {C : World → Prop} (h : Reach env C w) :
    ∃ w₀ l, Pristine w₀ ∧ AnyImageTrace w₀ l w := by
  refine (h.of_act (P := fun w => ∃ w₀ l, Pristine w₀ ∧ AnyImageTrace w₀ l w) ?_ ?_ ?_).2
  · intro image tty objs
    exact ⟨_, .new, start_pristine image tty objs, .refl⟩
  · rintro w w' hv ⟨w₀, l, h₀, ht⟩ hact
    obtain ⟨l', ht'⟩ := hact.imageTrace hv ht
    exact ⟨w₀, l', h₀, ht'⟩
  · rintro w id t ⟨w₀, l, h₀, ht⟩
    exact ⟨w₀, l, h₀, ht.other (.of_eq rfl rfl)⟩

end Scheduler

/-! ## A handler for an image that is gone -/

/-- A program with the action `⟨0x20, 0, 0x30, 0⟩` at `16` and the path `a` at `40`. -/
def handlerProgram : World :=
  let data : U32 → U8 := fun a => if a = 16 then 0x20 else if a = 24 then 0x30 else if a = 40 then 97 else 0
  start ⟨{ CPU.new with regs := fun _ => 0x400 }, { Memory.new 0x800 with data := data }, 0⟩ none
    Objects.new

/-- It installs a handler for `SIGUSR1`. -/
def handlerInstalled : World :=
  handlerProgram.leave 0 ((handlerProgram.enter 0).rtSigaction 10 16 0 8)

theorem handlerInstalled_trace :
    ImageTrace OwnOnly handlerProgram (Ledger.new.installed 0 0 10) handlerInstalled := by
  have h : ImageTrace OwnOnly handlerProgram .new handlerProgram := .refl
  have ha : (handlerProgram.enter 0).installs 10 16 0 8 = some ⟨0x20, 0, 0x30, 0⟩ := by decide
  exact h.sigaction 10 16 0 8 (show 0 < 1 by decide) ha fun _ _ _ _ => rfl

/-- The handler is there, also in a child. -/
theorem handlers_of_image_forked :
    Caught ((handlerInstalled.fork 1).2.action 1 10) ∧
      OfImage ((Ledger.new.installed 0 0 10).spawned 0 1 0 1) (handlerInstalled.fork 1).2 := by
  have h := handlerInstalled_trace.fork (i := 0) 1 (by decide) (by decide)
  refine ⟨by decide, ?_⟩
  exact ((handlers_of_image OwnOnly _ _ _ (start_pristine _ none _) h).2.1 fun _ _ _ hc => hc).1

def newImage : Image := ⟨{ CPU.new with regs := fun _ => 0x400 }, Memory.new 0x800, 0⟩

def oneImage : Env :=
  { idle with
    host := { Host.silent with resolve := fun _ _ => .ok [] }
    load := fun _ _ _ _ => .ok newImage }

/-- `SIGUSR1` is pending when the program calls `execve`. -/
def handlerPending : World := handlerInstalled.leave 0 ((handlerInstalled.enter 0).kill 0 10)

def handlerLeft : World := handlerPending.execve oneImage 0 40 0 0

/-- The new image has the handler of the old one, and its first turn takes it there. -/
theorem handler_outlives_image :
    (∃ l, AnyImageTrace handlerProgram l handlerLeft ∧ ¬ Recent l handlerLeft ∧
      ¬ OfImage l handlerLeft) ∧
      (handlerLeft.proc 0).cpu.eip = 0 ∧ ((handlerLeft.step oneImage).2.proc 0).cpu.eip = 0x20 := by
  have h : AnyImageTrace handlerProgram .new handlerProgram := .refl
  have ha : (handlerProgram.enter 0).installs 10 16 0 8 = some ⟨0x20, 0, 0x30, 0⟩ := by decide
  have hinstalled := h.sigaction 10 16 0 8 (show 0 < 1 by decide) ha trivial
  have hpending := hinstalled.other (SameActions.leave (allows_kill (handlerInstalled.enter 0) 0 10))
  have hticked : AnyImageTrace handlerProgram _ handlerPending.nextTick.nextTick :=
    hpending.other (.of_eq rfl rfl)
  have hexec : handlerLeft = handlerPending.nextTick.nextTick.install 0 newImage := rfl
  have hcaught : Caught (handlerLeft.action 0 10) := by decide
  refine ⟨⟨_, hexec ▸ hticked.execve newImage (show 0 < 1 by decide) trivial, ?_, ?_⟩, ?_, ?_⟩
  · intro hrecent
    exact absurd (hrecent 0 (by decide) 10 hcaught) (by decide)
  · intro hown
    exact absurd (hown 0 (by decide) 10 hcaught) (by decide)
  · decide
  · decide +kernel

end World

end IshGo.Guest
