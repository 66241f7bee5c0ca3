/-
# `IshGo.Kernel.CallFrame` — what the calls leave alone

Only `futex` touches the table of waiters and the record of what the task waits for, and only
`rt_sigaction` the signal actions.  Both relations allow what all other requests do
(`AllowsCalls`); they are instances of it, each with its own exception.
-/
import IshGo.Kernel.Effects

namespace IshGo.Kernel

open I386 Lib

variable (s : KState) (host : Host)
variable {r : Request} {svc : Services}

/-- Besides transfers, a new mask, a new address for the TID, an exit and all that the calls on
the table do are allowed. -/
class AllowsCalls (R : KState → KState → Prop) : Prop extends AllowsTransfers R where
  mask : ∀ s m, R s { s with kern := { s.kern with signalMask := m } }
  tid : ∀ s addr, R s { s with kern := { s.kern with tidAddress := addr } }
  exits : ∀ s e c, R s { s with kern := { s.kern with exited := e, exitCode := c } }
  table : ∀ {s s'}, TableOnly s s' → R s s'

section AllowsCalls
variable {R : KState → KState → Prop} [AllowsCalls R]

instance : AllowsSignals R where
  mask := AllowsCalls.mask
  tid := AllowsCalls.tid
  exits := AllowsCalls.exits

theorem Request.allowed_call (hsvc : ∀ n, Stays R (svc.run n))
    (hr : r.special = false) (s : KState) : R s (after (r.run host svc) s) := by
  cases r with
  | table op => exact AllowsCalls.table (op.tableOnly host s)
  | _ => exact Request.allowed host hsvc hr nofun s

end AllowsCalls

/-! ## Futexes -/

/-- The table of waiters and the task's own record are as before. -/
structure FutexAside (s s' : KState) : Prop where
  futex : s'.futex = s.futex
  record : s'.kern.blockedFutex = s.kern.blockedFutex
  aware : s'.kern.schedulerAware = s.kern.schedulerAware

theorem FutexAside.of_kern {s s' : KState} (hf : s'.futex = s.futex) (hk : s'.kern = s.kern) :
    FutexAside s s' :=
  ⟨hf, by rw [hk], by rw [hk]⟩

instance : AllowsCalls FutexAside where
  refl _ := ⟨rfl, rfl, rfl⟩
  trans _ _ _ h h' :=
    ⟨h'.futex.trans h.futex, h'.record.trans h.record, h'.aware.trans h.aware⟩
  machine _ _ _ := ⟨rfl, rfl, rfl⟩
  pending _ _ := ⟨rfl, rfl, rfl⟩
  objs _ _ _ _ := ⟨rfl, rfl, rfl⟩
  mask _ _ := ⟨rfl, rfl, rfl⟩
  tid _ _ := ⟨rfl, rfl, rfl⟩
  exits _ _ _ := ⟨rfl, rfl, rfl⟩
  table h := .of_kern h.futex h.kern

instance : AllowsBlocking FutexAside where
  pipe _ _ := ⟨rfl, rfl, rfl⟩

/-- The calls that are not modelled have nothing to do with futexes. -/
def Services.SparesFutexes (svc : Services) : Prop := ∀ n, Stays FutexAside (svc.run n)

theorem futexAside_rtSigaction (signal actionAddr oldActionAddr size : U32) :
    FutexAside s (s.rtSigaction signal actionAddr oldActionAddr size) := by
  simp only [KState.rtSigaction]
  repeat' split
  all_goals exact ⟨rfl, rfl, rfl⟩

theorem Request.futexAside (hsvc : svc.SparesFutexes)
    (hr : ∀ uaddr op value timeoutAddr, r ≠ .futex uaddr op value timeoutAddr) (s : KState) :
    FutexAside s (after (r.run host svc) s) := by
  cases r with
  | futex uaddr op value timeoutAddr => exact absurd rfl (hr uaddr op value timeoutAddr)
  | rtSigaction signal actionAddr oldActionAddr size =>
    exact futexAside_rtSigaction s signal actionAddr oldActionAddr size
  | io c => exact Stays.stays (R := FutexAside) (x := c.run host) s
  | _ => exact Request.allowed_call host hsvc rfl s

/-! ## Signal actions -/

def ActionsAside (s s' : KState) : Prop := s'.actions = s.actions

instance : AllowsCalls ActionsAside where
  refl _ := rfl
  trans _ _ _ h h' := Eq.trans h' h
  machine _ _ _ := rfl
  pending _ _ := rfl
  objs _ _ _ _ := rfl
  mask _ _ := rfl
  tid _ _ := rfl
  exits _ _ _ := rfl
  table h := h.actions

instance : AllowsBlocking ActionsAside where
  pipe _ _ := rfl

theorem Request.actionsAside (svc : Services)
    (hr : ∀ signal actionAddr oldActionAddr size, r ≠ .rtSigaction signal actionAddr oldActionAddr size)
    (s : KState) : ActionsAside s (after (r.run host svc) s) := by
  have hsvc : ∀ n, Stays ActionsAside (svc.run n) :=
    fun n => ⟨fun s => ((svc.moves n).stays s).actions⟩
  cases r with
  | futex uaddr op value timeoutAddr =>
    exact (futexFrame_futexCall s host uaddr op value timeoutAddr).actions
  | rtSigaction signal actionAddr oldActionAddr size =>
    exact absurd rfl (hr signal actionAddr oldActionAddr size)
  | io c => exact Stays.stays (R := ActionsAside) (x := c.run host) s
  | _ => exact Request.allowed_call host hsvc rfl s

/-- The action that a call of `rt_sigaction` installs, if it gets so far. -/
def KState.installs (s : KState) (signal actionAddr oldActionAddr size : U32) :
    Option SignalAction :=
  if signal = 0 ∨ signal > 64 ∨ signal = 9 ∨ signal = 19 ∨ size ≠ 8 then none
  else
    let r := writeAction s.mem oldActionAddr (s.actions signal)
    if r.1 = false ∨ actionAddr = 0 then none else readAction r.2 actionAddr

theorem rtSigaction_actions (signal actionAddr oldActionAddr size : U32) :
    (s.rtSigaction signal actionAddr oldActionAddr size).actions =
      (s.installs signal actionAddr oldActionAddr size).elim s.actions
        (Function.update s.actions signal) := by
  simp only [KState.rtSigaction, KState.installs]
  split
  · rfl
  generalize writeAction s.mem oldActionAddr (s.actions signal) = r
  by_cases hwrite : r.1 = false
  · rw [if_pos hwrite, if_pos (Or.inl hwrite)]
    rfl
  rw [if_neg hwrite]
  by_cases haddr : actionAddr = 0
  · rw [if_pos haddr, if_pos (Or.inr haddr)]
    rfl
  rw [if_neg haddr, if_neg (not_or.mpr ⟨hwrite, haddr⟩)]
  cases readAction r.2 actionAddr with
  | none => rfl
  | some action =>
    funext i
    rw [Option.elim_some, Function.update_apply]
    rfl

end IshGo.Kernel
