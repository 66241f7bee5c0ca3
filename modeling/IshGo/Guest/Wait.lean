/-
# `IshGo.Guest.Wait` — which child `wait4` finds

`wait4` goes through the tasks in the order of the scheduler and decides at the FIRST child
that it is asked for: reaps it if it has exited, and otherwise gives up, whatever the
children behind it have done.  `waits` lists the five ways in which a call ends.
-/
import IshGo.Guest.Invariant

namespace IshGo.Guest

open I386 Kernel Lib Function

variable {pid : U32} {t : Task}

namespace World

structure Scheduled (w : World) : Prop where
  listed : ∀ pid t, w.tasks pid = some t → pid ∈ w.order
  named : ∀ pid t, w.tasks pid = some t →
    (w.proc t.process).pid = pid ∧ 0 < pid.toNat ∧ pid.toNat ≤ 2 ^ 31

/-- A child of the process `i` that has not been reaped and that is waited for. -/
structure Child (w : World) (i : Nat) (requested pid : U32) (t : Task) : Prop where
  task : w.tasks pid = some t
  unreaped : t.reaped = false
  parent : (w.proc t.process).parentPID = (w.proc i).pid
  wanted : 0 < requested.toInt → requested = (w.proc t.process).pid

structure Zombie (w : World) (i : Nat) (requested pid : U32) (t : Task) : Prop
    extends Child w i requested pid t where
  exited : (w.proc t.process).state = .exited

section
variable {w : World} {i : Nat} {requested statusAddr options : U32}

theorem isChild_iff (ht : w.tasks pid = some t) :
    w.isChild (w.proc i) requested t = true ↔ w.Child i requested pid t := by
  unfold isChild
  rw [decide_eq_true_iff]
  constructor
  · rintro ⟨h₁, h₂, h₃⟩
    exact ⟨ht, h₁, h₂, h₃⟩
  · intro h
    exact ⟨h.unreaped, h.parent, h.wanted⟩

theorem findChild_some
    (h : w.findChild (w.proc i) requested = some (pid, t)) : w.Child i requested pid t := by
  have htask := findChild_task h
  obtain ⟨pid', _, hpid⟩ := List.exists_of_findSome?_eq_some h
  split at hpid
  · cases hpid
  split at hpid
  · rename_i hchild
    cases hpid
    exact (isChild_iff htask).mp hchild
  · cases hpid

theorem findChild_none (h : w.findChild (w.proc i) requested = none) (hs : w.Scheduled) (pid : U32)
    (t : Task) : ¬ w.Child i requested pid t := by
  intro hchild
  have hpid := List.findSome?_eq_none_iff.mp h pid (hs.listed pid t hchild.task)
  rw [hchild.task] at hpid
  dsimp only at hpid
  rw [if_pos ((isChild_iff hchild.task).mpr hchild)] at hpid
  cases hpid

/-! ## How a call ends -/

def waitStatus (w : World) (t : Task) : U32 := ((w.proc t.process).exitCode &&& 0xff) <<< 8

/-- The memories with the status stored, if a place for it is given. -/
def StatusStored (w : World) (i : Nat) (statusAddr status : U32) (mems : Heap Memory) : Prop :=
  statusAddr = 0 ∧ mems = w.mems ∨
    statusAddr ≠ 0 ∧ ∃ mem, (w.mems.cell (w.proc i).space).write32 statusAddr status = .ok mem ∧
      mems = w.mems.set (w.proc i).space mem

def markReaped (w : World) (pid : U32) (t : Task) : World :=
  { w with tasks := update w.tasks pid (some { t with reaped := true }) }

inductive Waits (w : World) (i : Nat) (requested statusAddr options : U32) : U32 × World → Prop
  | childless : w.findChild (w.proc i) requested = none →
      Waits w i requested statusAddr options (echild, w)
  | running {pid : U32} {t : Task} : w.findChild (w.proc i) requested = some (pid, t) →
      (w.proc t.process).state ≠ .exited → options &&& 1 ≠ 0 →
      Waits w i requested statusAddr options (0, w)
  | blocked {pid : U32} {t : Task} : w.findChild (w.proc i) requested = some (pid, t) →
      (w.proc t.process).state ≠ .exited → options &&& 1 = 0 →
      Waits w i requested statusAddr options
        (eagain, w.blockWait4 i ⟨requested, statusAddr, options⟩)
  | unstored {pid : U32} {t : Task} {e : SpaceError} :
      w.findChild (w.proc i) requested = some (pid, t) →
      (w.proc t.process).state = .exited → statusAddr ≠ 0 →
      (w.mems.cell (w.proc i).space).write32 statusAddr (w.waitStatus t) = .error e →
      Waits w i requested statusAddr options (efault, w)
  | reaped {pid : U32} {t : Task} {mems : Heap Memory} :
      w.findChild (w.proc i) requested = some (pid, t) →
      (w.proc t.process).state = .exited → w.StatusStored i statusAddr (w.waitStatus t) mems →
      Waits w i requested statusAddr options
        ((w.proc t.process).pid, { w with mems := mems }.markReaped pid t)

theorem waits (w : World) (i : Nat) (requested statusAddr options : U32) :
    Waits w i requested statusAddr options (w.wait4 i requested statusAddr options) := by
  unfold wait4
  cases hf : w.findChild (w.proc i) requested with
  | none => exact .childless hf
  | some found =>
    obtain ⟨pid, t⟩ := found
    dsimp only
    split
    · rename_i hstate
      split
      · rename_i hopt
        exact .running hf hstate hopt
      · rename_i hopt
        exact .blocked hf hstate (not_not.mp hopt)
    rename_i hstate
    have hexited := not_not.mp hstate
    unfold reap storeWord
    dsimp only
    by_cases haddr : statusAddr = 0
    · simp only [haddr, or_true, if_true, Bool.true_eq_false, if_false]
      exact .reaped hf hexited (Or.inl ⟨rfl, rfl⟩)
    simp only [haddr, Bool.true_eq_false, or_false, if_false]
    cases hw : (w.mems.cell (w.proc i).space).write32 statusAddr
        (((w.proc t.process).exitCode &&& 0xff) <<< 8) with
    | error e => exact .unstored hf hexited haddr hw
    | ok mem => exact .reaped hf hexited (Or.inr ⟨haddr, mem, hw, rfl⟩)

/-! ## Zombies -/

structure FindsZombie (w : World) (i : Nat) (requested : U32) (r : U32 × World) : Prop where
  returned : (∃ pid t, w.Zombie i requested pid t) →
    ∃ pid t, w.Zombie i requested pid t ∧ r.1 = pid ∧
      r.2.tasks = update w.tasks pid (some { t with reaped := true })
  patient : r.1 = 0 ∨ r.1 = eagain → ∀ pid t, ¬ w.Zombie i requested pid t

def FirstExited (w : World) (i : Nat) (requested : U32) : Prop :=
  ∀ pid t, w.findChild (w.proc i) requested = some (pid, t) → (w.proc t.process).state = .exited

/-- A PID is neither `0` nor `-EAGAIN`. -/
theorem Scheduled.pid_ne (h : w.Scheduled) (ht : w.tasks pid = some t) : pid ≠ 0 ∧ pid ≠ eagain := by
  obtain ⟨_, hpos, hmax⟩ := h.named pid t ht
  have hagain : eagain.toNat = 4294967285 := by decide
  refine ⟨?_, ?_⟩
  · rintro rfl
    exact absurd hpos (by decide)
  · rintro rfl
    omega

/-- A zombie is returned, and never overlooked, exactly if the first child has exited. -/
theorem zombie_found_iff (w : World) (h : w.Scheduled) (i : Nat)
    (requested statusAddr options : U32)
    (hstatus : statusAddr = 0 ∨
      ∀ v, ∃ mem, (w.mems.cell (w.proc i).space).write32 statusAddr v = .ok mem) :
    w.FindsZombie i requested (w.wait4 i requested statusAddr options) ↔
      ((∃ pid t, w.Zombie i requested pid t) → w.FirstExited i requested) := by
  have hwaits := waits w i requested statusAddr options
  generalize w.wait4 i requested statusAddr options = r at hwaits
  constructor
  · intro hfinds hzombie pid t hf
    obtain ⟨pid', t', hz, hret, _⟩ := hfinds.returned hzombie
    obtain ⟨hzero, hagain⟩ := h.pid_ne hz.task
    cases hwaits with
    | childless hnone =>
      rw [hnone] at hf
      cases hf
    | running _ _ _ => exact absurd hret.symm hzero
    | blocked _ _ _ => exact absurd hret.symm hagain
    | unstored hf' hexited _ _ =>
      rw [hf'] at hf
      cases hf
      exact hexited
    | reaped hf' hexited _ =>
      rw [hf'] at hf
      cases hf
      exact hexited
  intro hfirst
  have hreturned : (∃ pid t, w.Zombie i requested pid t) →
      ∃ pid t, w.Zombie i requested pid t ∧ r.1 = pid ∧
        r.2.tasks = Function.update w.tasks pid (some { t with reaped := true }) := by
    intro hzombie
    cases hwaits with
    | childless hnone =>
      obtain ⟨pid, t, hz⟩ := hzombie
      exact absurd hz.toChild (findChild_none hnone h pid t)
    | running hf hstate _ => exact absurd (hfirst hzombie _ _ hf) hstate
    | blocked hf hstate _ => exact absurd (hfirst hzombie _ _ hf) hstate
    | unstored _ _ haddr hw =>
      obtain ⟨mem, hok⟩ := hstatus.resolve_left haddr _
      rw [hw] at hok
      cases hok
    | @reaped pid t _ hf hexited _ =>
      have hchild := findChild_some hf
      exact ⟨pid, t, ⟨hchild, hexited⟩, (h.named pid t hchild.task).1, rfl⟩
  refine ⟨hreturned, ?_⟩
  intro hr pid t hz
  obtain ⟨pid', t', hz', hret, _⟩ := hreturned ⟨pid, t, hz⟩
  obtain ⟨hzero, hagain⟩ := h.pid_ne hz'.task
  rcases hr with hr | hr
  · exact hzero (hret.symm.trans hr)
  · exact hagain (hret.symm.trans hr)

end

def secondExited : World :=
  let w := start ⟨CPU.new, Memory.new 16, 0⟩ none Objects.new
  (((w.fork 1).2.fork 1).2).setState 2 .exited

theorem secondExited_tasks (h : secondExited.tasks pid = some t) :
    pid = 1 ∧ t = ⟨0, false⟩ ∨ pid = 2 ∧ t = ⟨1, false⟩ ∨ pid = 3 ∧ t = ⟨2, false⟩ := by
  have htasks : secondExited.tasks =
      update (update (fun pid => if pid = 1 then some ⟨0, false⟩ else none) 2
        (some ⟨1, false⟩)) 3 (some ⟨2, false⟩) := rfl
  rw [htasks] at h
  by_cases h₃ : pid = 3
  · subst h₃
    cases h
    exact Or.inr (Or.inr ⟨rfl, rfl⟩)
  rw [update_of_ne h₃] at h
  by_cases h₂ : pid = 2
  · subst h₂
    cases h
    exact Or.inr (Or.inl ⟨rfl, rfl⟩)
  rw [update_of_ne h₂] at h
  by_cases h₁ : pid = 1
  · subst h₁
    cases h
    exact Or.inl ⟨rfl, rfl⟩
  · rw [if_neg h₁] at h
    cases h

theorem secondExited_scheduled : secondExited.Scheduled := by
  refine ⟨?_, ?_⟩
  · intro pid t h
    rcases secondExited_tasks h with ⟨rfl, _⟩ | ⟨rfl, _⟩ | ⟨rfl, _⟩ <;> decide
  · intro pid t h
    rcases secondExited_tasks h with ⟨rfl, rfl⟩ | ⟨rfl, rfl⟩ | ⟨rfl, rfl⟩ <;> decide

theorem secondExited_zombie (requested : U32) (h : 0 < requested.toInt → requested = 3) :
    secondExited.Zombie 0 requested 3 ⟨2, false⟩ := ⟨⟨rfl, rfl, rfl, h⟩, rfl⟩

/-- Asked for by its PID, the second child is the first one that matches. -/
theorem zombie_found_iff_byPID :
    secondExited.FindsZombie 0 3 (secondExited.wait4 0 3 0 1) ∧
      (secondExited.wait4 0 3 0 1).1 = 3 := by
  refine ⟨(zombie_found_iff secondExited secondExited_scheduled 0 3 0 1 (Or.inl rfl)).mpr ?_, by decide⟩
  intro _ pid t hf
  cases hf
  rfl

/-- Any child: the zombie is overlooked. -/
theorem secondExited_overlooked :
    secondExited.Zombie 0 (-1) 3 ⟨2, false⟩ ∧ (secondExited.wait4 0 (-1) 0 1).1 = 0 ∧
      (secondExited.wait4 0 (-1) 0 0).1 = eagain :=
  ⟨secondExited_zombie (-1) (by decide), by decide, by decide⟩

end World

end IshGo.Guest
