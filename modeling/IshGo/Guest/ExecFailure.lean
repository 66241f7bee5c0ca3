/-
# `IshGo.Guest.ExecFailure` — an `execve` that fails leaves the process as it was

Reading the path and the two vectors, resolving the path and loading the file all come before the
first step that cannot be taken back.  So a call that does not replace the image changes EAX and the
count of steps of its CPU, and nothing else (`failed_execve_clean`).
-/
import IshGo.Guest.Exit

namespace IshGo.Guest

open I386 Kernel Lib

namespace World

variable {w w' : World} {env : Env} {i : Nat} {pathAddr argvAddr envpAddr errno : U32}

/-- The call gets as far as the new image, with this environment. -/
def ReplacesWith (w : World) (env : Env) (i : Nat) (pathAddr argvAddr envpAddr : U32)
    (envp : List (List U8)) : Prop :=
  ∃ name argv, (w.enter i).mem.readCString pathAddr 4096 = some name ∧
    readVector (w.enter i).mem argvAddr 4096 = some argv ∧
    readVector (w.enter i).mem envpAddr 4096 = some envp ∧
    (w.replaceImage env i ((w.enter i).guestPath name) argv envp).1 = .ok ()

/-- The environments of the processes, beside the world, where nothing reads them.  `replaceImage`
assigns the new one together with the image. -/
def environAfter (w : World) (env : Env) (i : Nat) (pathAddr argvAddr envpAddr : U32)
    (environ : Nat → List (List U8)) : Nat → List (List U8) :=
  match (w.enter i).mem.readCString pathAddr 4096, readVector (w.enter i).mem argvAddr 4096,
      readVector (w.enter i).mem envpAddr 4096 with
  | some name, some argv, some envp =>
    match (w.replaceImage env i ((w.enter i).guestPath name) argv envp).1 with
    | .error _ => environ
    | .ok () => Function.update environ i envp
  | _, _, _ => environ

/-- Process `i` has got an error number in EAX, and one more step; all else is as it was, but for the
clock of the host. -/
def Refused (w w' : World) (i : Nat) (errno : U32) : Prop :=
  let cpu := (w.proc i).cpu
  ∃ tick, w' = { w with
    procs := w.procs.set i { w.proc i with
      cpu := { cpu with regs := fun r => if r = EAX then errno else cpu.regs r, steps := cpu.steps + 1 } }
    objs := { w.objs with tick := tick } }

theorem refused_ret (tick : Nat) (errno : U32) :
    Refused w ((({ w with objs := { w.objs with tick := tick } } : World).ret i errno).countStep i) i errno := by
  refine ⟨tick, ?_⟩
  simp only [countStep, setProc, ret, proc_leave_self]
  simp only [leave, enter, KState.ret, KState.setReg, files, proc, Heap.set_cell, Heap.set_set]

theorem replaceImage_error {path : List U8} {argv envp : List (List U8)} {e : IOErr}
    (h : (w.replaceImage env i path argv envp).1 = .error e) :
    ∃ tick, (w.replaceImage env i path argv envp).2 = { w with objs := { w.objs with tick := tick } } := by
  unfold replaceImage at h ⊢
  cases hpath : env.host.resolve w.objs.tick path with
  | error e => exact ⟨_, rfl⟩
  | ok hostPath =>
    rw [hpath] at h
    dsimp only at h ⊢
    cases hload : env.load w.nextTick.objs.tick hostPath (if argv = [] then [path] else argv) envp with
    | error e => exact ⟨_, rfl⟩
    | ok image =>
      rw [hload] at h
      cases h

/-- **An `execve` that fails.**  If the call does not replace the image, nothing but EAX and the count of
steps changes, and EAX holds a negative error number. -/
theorem failed_execve_clean (environ : Nat → List (List U8))
    (h : ∀ envp, ¬ w.ReplacesWith env i pathAddr argvAddr envpAddr envp) :
    (∃ errno, (errno = enoent ∨ errno = efault) ∧
      Refused w (w.execve env i pathAddr argvAddr envpAddr) i errno) ∧
    w.environAfter env i pathAddr argvAddr envpAddr environ = environ := by
  unfold execve environAfter
  dsimp only
  have hrefused : Refused w ((w.ret i efault).countStep i) i efault := refused_ret w.objs.tick efault
  cases hname : (w.enter i).mem.readCString pathAddr 4096 with
  | none => exact ⟨⟨_, Or.inr rfl, hrefused⟩, rfl⟩
  | some name =>
    cases hargv : readVector (w.enter i).mem argvAddr 4096 with
    | none => exact ⟨⟨_, Or.inr rfl, hrefused⟩, rfl⟩
    | some argv =>
      cases henvp : readVector (w.enter i).mem envpAddr 4096 with
      | none => exact ⟨⟨_, Or.inr rfl, hrefused⟩, rfl⟩
      | some envp =>
        cases hdone : (w.replaceImage env i ((w.enter i).guestPath name) argv envp).1 with
        | ok u => exact absurd ⟨name, argv, hname, hargv, henvp, hdone⟩ (h envp)
        | error e =>
          obtain ⟨tick, hw⟩ := replaceImage_error hdone
          simp only [hw, hdone]
          refine ⟨⟨if e = .notExist then enoent else efault, ?_, refused_ret tick _⟩, trivial⟩
          split
          · exact Or.inl rfl
          · exact Or.inr rfl

/-- The path is beyond the end of memory. -/
theorem failed_execve_clean_path :
    ∃ errno, (errno = enoent ∨ errno = efault) ∧
      Refused (program []) ((program []).execve idle 0 0xffff0000 0 0) 0 errno := by
  have hpath : ((program []).enter 0).mem.readCString 0xffff0000 4096 = none := by decide
  refine (failed_execve_clean (fun _ => []) ?_).1
  rintro envp ⟨name, argv, hname, -⟩
  rw [hpath] at hname
  cases hname

end World

end IshGo.Guest
