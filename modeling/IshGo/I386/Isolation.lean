/-
# `IshGo.I386.Isolation` — guest code cannot get past the page permissions

With protection on, and whatever the instructions are:

    a byte outside every ProtWrite mapping keeps its value,
    the mappings stay as they are,
    every byte of code that an instruction consumes lies in a ProtExec mapping.
-/
import IshGo.I386.Walk
import Mathlib.Logic.Relation

namespace IshGo.I386

open Lib

/-! ## One instruction -/

/-- The accesses of a list that fetch code do so from ProtExec mappings. -/
def CodeFrom (a : AddressSpace) (log : List Access) : Prop :=
  ∀ c ∈ log, c.kind = .fetch → ∀ i < c.width, a.Allows protExec (c.addr + BitVec.ofNat 32 i)

structure Kept (s s' : Machine) : Prop where
  isProtected : s'.mem.isProtected = true
  space : s'.mem.space = s.mem.space
  bytes : ∀ x, ¬ s.mem.space.Allows protWrite x → s'.mem.data x = s.mem.data x
  code : CodeFrom s.mem.space s.log → CodeFrom s.mem.space s'.log

def Isolates (s s' : Machine) : Prop := s.mem.isProtected = true → Kept s s'

theorem Kept.log {s : Machine} (hp : s.mem.isProtected = true) {c : Access}
    (hc : c.kind = .fetch → ∀ i < c.width, s.mem.space.Allows protExec (c.addr + BitVec.ofNat 32 i)) :
    Kept s { s with log := c :: s.log } := by
  refine ⟨hp, rfl, fun _ _ => rfl, fun hlog d hd => ?_⟩
  rcases List.mem_cons.mp hd with rfl | hd
  · exact hc
  · exact hlog d hd

instance : MemRel Isolates where
  refl s hp := ⟨hp, rfl, fun _ _ => rfl, id⟩
  trans s t u hst htu hp := by
    have h₁ := hst hp
    have h₂ := htu h₁.isProtected
    refine ⟨h₂.isProtected, h₂.space.trans h₁.space, fun x hx => ?_, fun hlog => ?_⟩
    · rw [h₂.bytes x (h₁.space ▸ hx), h₁.bytes x hx]
    · have hcode := h₂.code
      rw [h₁.space] at hcode
      exact hcode (h₁.code hlog)
  same s s' hm hl hp := by
    refine ⟨hm ▸ hp, by rw [hm], fun _ _ => by rw [hm], fun hlog => ?_⟩
    rw [hl]
    exact hlog
  fetch s addr hok hp := Kept.log hp fun _ i hi => Memory.checkAccess_ok hok hp hi
  read s addr width _ _ hp := Kept.log hp fun h => nomatch h
  write s addr bytes mem hlen hok hp := by
    obtain ⟨hp', hspace, hbytes⟩ := Memory.writeBytes_ok hok (by omega) hp
    refine ⟨hp', hspace, hbytes, fun hlog d hd => ?_⟩
    rcases List.mem_cons.mp hd with rfl | hd
    · exact fun h => nomatch h
    · exact hlog d hd

theorem step_kept (s : Machine) (hp : s.mem.isProtected = true) :
    Kept { s with log := [] } (after step s) := by
  have hstays : Stays Isolates (do if (← get).halted then return .none else stepRunning : CpuM Trap) :=
    inferInstance
  exact hstays.stays { s with log := [] } hp

/-! ## Runs -/

/-- A step that fails, or succeeds without `INT 0x80`. -/
inductive Steps (s : Machine) : Machine → Prop
  | ok {s' : Machine} : step s = .ok .none s' → Steps s s'
  | error {s' : Machine} {e : Fault} : step s = .error e s' → Steps s s'

theorem Steps.after {s s' : Machine} : Steps s s' → s' = after step s
  | .ok h => (after_ok h).symm
  | .error h => (after_error h).symm

/-- What a run keeps, whatever its steps did. -/
theorem run_kept {s t : Machine} (hrun : Relation.ReflTransGen Steps s t)
    (hp : s.mem.isProtected = true) :
    t.mem.isProtected = true ∧ t.mem.space = s.mem.space ∧
      ∀ x, ¬ s.mem.space.Allows protWrite x → t.mem.data x = s.mem.data x := by
  induction hrun with
  | refl => exact ⟨hp, rfl, fun _ _ => rfl⟩
  | @tail t u _ hstep ih =>
    obtain ⟨htp, hspace, hbytes⟩ := ih
    have hkept := step_kept t htp
    rw [← hstep.after] at hkept
    refine ⟨hkept.isProtected, hkept.space.trans hspace, fun x hx => ?_⟩
    exact (hkept.bytes x (by rw [← hspace] at hx; exact hx)).trans (hbytes x hx)

/-- **Guest isolation.**  In every run of steps, failing or not, on a protected
memory: the mappings stay, a byte outside the ProtWrite mappings keeps its value,
and a step that succeeds has consumed its code from ProtExec mappings: every fetch in its
log.  That these are the bytes from EIP on is the definition of `fetch8`, and not stated
here.  The table need not even be well-formed. -/
theorem guest_isolation {s t : Machine} (hp : s.mem.isProtected = true)
    (hrun : Relation.ReflTransGen Steps s t) :
    t.mem.space = s.mem.space ∧
      (∀ x, ¬ s.mem.space.Allows protWrite x → t.mem.data x = s.mem.data x) ∧
      ∀ t', step t = .ok .none t' → CodeFrom s.mem.space t'.log := by
  obtain ⟨htp, hspace, hbytes⟩ := run_kept hrun hp
  refine ⟨hspace, hbytes, fun t' hstep => ?_⟩
  have hkept := step_kept t htp
  rw [after_ok hstep] at hkept
  have hcode := hkept.code fun _ h => absurd h List.not_mem_nil
  exact hspace ▸ hcode

def stepsOn (s : Machine) : Bool :=
  match step s with
  | .ok .int80 _ => false
  | _ => true

theorem steps_after {s : Machine} (h : stepsOn s = true) : Steps s (after step s) := by
  unfold stepsOn at h
  cases hs : step s with
  | ok t s' =>
    cases t with
    | none => exact after_ok hs ▸ .ok hs
    | int80 => rw [hs] at h; cases h
  | error e s' => exact after_error hs ▸ .error hs

/-- A read-only page of code that moves a word to a register and then tries to store
it over itself. -/
def selfPatching : Machine :=
  { CPU.new with
    eip := 0x1000
    mem :=
      { size := 0x3000
        data := storeBytes (fun _ => 0) 0x1000 [0xB8, 1, 2, 3, 4, 0xA3, 0, 0x10, 0, 0]
        space :=
          { mappings := [⟨0x1000, 0x2000, protRead ||| protExec, "text"⟩], max := 0x3000, nextHint := 0 }
        isProtected := true }
    log := [] }

theorem guest_isolation_selfPatching :
    ∃ t, Relation.ReflTransGen Steps selfPatching t ∧ t.regs EAX = 0x04030201 ∧ t.lastOpcode = 0xA3 ∧
      t.mem.space = selfPatching.mem.space ∧
      (∀ x, ¬ selfPatching.mem.space.Allows protWrite x → t.mem.data x = selfPatching.mem.data x) ∧
      ∀ t', step t = .ok .none t' → CodeFrom selfPatching.mem.space t'.log := by
  have h₁ : Steps selfPatching (after step selfPatching) := steps_after (by decide +kernel)
  have h₂ : Steps (after step selfPatching) (after step (after step selfPatching)) :=
    steps_after (by decide +kernel)
  have hrun := (Relation.ReflTransGen.single h₁).tail h₂
  exact ⟨_, hrun, by decide +kernel, by decide +kernel, guest_isolation rfl hrun⟩

end IshGo.I386
