/-
# `IshGo.I386.FpuStack` — the stack of the x87 stays a stack

`fpuPush` and `fpuPop` move the top and the count together, and nothing else moves either:
every instruction keeps `top ≤ 7`, `count ≤ 8` and the remainder of `top + count` by 8, failing
or not (`Stacked`; the walk is that of `IshGo.I386.Walk`).  From the stack of `NewCPU` the
remainder is 0 (`x87_stack`).
-/
import IshGo.I386.Isolation

namespace IshGo.I386

open Lib

/-- The stack is inside its eight slots, and `k` is what tells how it lies in them. -/
structure Stacked (k : Nat) (s : Machine) : Prop where
  top : s.fpuTop ≤ 7
  count : s.fpuCount ≤ 8
  rest : (s.fpuTop.toNat + s.fpuCount.toNat) % 8 = k

/-- A run from `s` to `s'` keeps `Stacked k`. -/
def KeepsStack (k : Nat) (s s' : Machine) : Prop := Stacked k s → Stacked k s'

/-! ## Push and pop -/

namespace Machine

variable (s : Machine)

def stAt (i : U8) : U64 := s.fpu ((s.fpuTop + i).setWidth 3)

def pushed (v : U64) : Machine :=
  { s with
    fpuTop := (s.fpuTop + 7) &&& 7
    fpuCount := s.fpuCount + 1
    fpu := fun i => if i = ((s.fpuTop + 7) &&& 7).setWidth 3 then v else s.fpu i }

def popped : Machine :=
  { s with fpuTop := (s.fpuTop + 1) &&& 7, fpuCount := s.fpuCount - 1 }

end Machine

variable {k : Nat} {s : Machine}

theorem toNat_and_seven (x : U8) : (x &&& 7).toNat = x.toNat % 8 := by
  rw [BitVec.toNat_and]
  exact Nat.and_two_pow_sub_one_eq_mod x.toNat 3

theorem and_seven_le (x : U8) : x &&& 7 ≤ 7 := by
  have := toNat_and_seven x
  bv_omega

theorem fpuTopSlot_ok (h : s.fpuTop ≤ 7) : fpuTopSlot s = .ok (s.fpuTop.setWidth 3) s :=
  require_bind h .panic _

theorem fpuPush_full (h : ¬ s.fpuCount < 8) (v : U64) : fpuPush v s = .error .x87StackOverflow s :=
  require_bind_error h .x87StackOverflow _

theorem fpuPush_ok (h : s.fpuCount < 8) (v : U64) : fpuPush v s = .ok () (s.pushed v) := by
  refine (require_bind h .x87StackOverflow _).trans ?_
  rw [modify_bind, setST0, bind_assoc, bind_of_ok (fpuTopSlot_ok (and_seven_le _))]
  rfl

theorem fpuPop_empty (h : ¬ s.fpuCount ≠ 0) : fpuPop s = .error .x87StackUnderflow s :=
  require_bind_error h .x87StackUnderflow _

theorem fpuPop_ok (ht : s.fpuTop ≤ 7) (h : s.fpuCount ≠ 0) :
    fpuPop s = .ok (s.fpu (s.fpuTop.setWidth 3)) s.popped := by
  refine (require_bind h .x87StackUnderflow _).trans ?_
  rw [get_bind, bind_of_ok (fpuTopSlot_ok ht)]
  rfl

theorem fpuST_ok {i : U8} (h : i < s.fpuCount) (hc : s.fpuCount ≤ 8) : fpuST i s = .ok (s.stAt i) s :=
  require_bind ⟨h, by bv_omega⟩ (.invalidX87StackRegister i) _

theorem Stacked.pushed (h : Stacked k s) (hc : s.fpuCount < 8) (v : U64) : Stacked k (s.pushed v) := by
  obtain ⟨ht, _, hk⟩ := h
  have hand := toNat_and_seven (s.fpuTop + 7)
  refine ⟨and_seven_le _, ?_, ?_⟩
  · show s.fpuCount + 1 ≤ 8
    bv_omega
  · show ((s.fpuTop + 7 &&& 7).toNat + (s.fpuCount + 1).toNat) % 8 = k
    bv_omega

theorem Stacked.popped (h : Stacked k s) (hc : s.fpuCount ≠ 0) : Stacked k s.popped := by
  obtain ⟨ht, hn, hk⟩ := h
  have hand := toNat_and_seven (s.fpuTop + 1)
  refine ⟨and_seven_le _, ?_, ?_⟩
  · show s.fpuCount - 1 ≤ 8
    bv_omega
  · show ((s.fpuTop + 1 &&& 7).toNat + (s.fpuCount - 1).toNat) % 8 = k
    bv_omega

theorem popped_pushed (h : Stacked k s) (hc : s.fpuCount < 8) (v : U64) :
    fpuPop (s.pushed v) = .ok v (s.pushed v).popped ∧
      (s.pushed v).popped.fpuTop = s.fpuTop ∧ (s.pushed v).popped.fpuCount = s.fpuCount ∧
      ∀ i < s.fpuCount, fpuST i (s.pushed v).popped = .ok (s.stAt i) (s.pushed v).popped := by
  have hpushed := h.pushed hc v
  have htop := h.top
  have hand := toNat_and_seven (s.fpuTop + 7)
  have hcount : s.fpuCount + 1 ≠ 0 := by bv_omega
  have htop' : (s.pushed v).popped.fpuTop = s.fpuTop := by
    have hand' := toNat_and_seven ((s.fpuTop + 7 &&& 7) + 1)
    show (s.fpuTop + 7 &&& 7) + 1 &&& 7 = s.fpuTop
    bv_omega
  have hcount' : (s.pushed v).popped.fpuCount = s.fpuCount := by
    show s.fpuCount + 1 - 1 = s.fpuCount
    bv_omega
  refine ⟨?_, htop', hcount', fun i hi => ?_⟩
  · rw [fpuPop_ok hpushed.top hcount]
    exact congrArg (EStateM.Result.ok · _) (if_pos rfl)
  rw [fpuST_ok (by rwa [hcount']) (by rw [hcount']; exact h.count), Machine.stAt, htop']
  -- the slot that was written is seven above the top
  have hslot : (s.fpuTop + i).setWidth 3 ≠ (s.fpuTop + 7 &&& 7).setWidth 3 := by bv_omega
  exact congrArg (EStateM.Result.ok · _) (if_neg hslot)

/-! ## Every instruction -/

theorem KeepsStack.of_eq {s' : Machine} (ht : s'.fpuTop = s.fpuTop) (hc : s'.fpuCount = s.fpuCount) :
    KeepsStack k s s' := fun h => ⟨ht ▸ h.top, hc ▸ h.count, by rw [ht, hc, h.rest]⟩

instance : IsPreorder Machine (KeepsStack k) where
  refl _ h := h
  trans _ _ _ h h' hs := h' (h hs)

instance : DispatchRel (KeepsStack k) where
  setReg _ _ := .modify fun _ => .of_eq rfl rfl
  setEIP _ := .modify fun _ => .of_eq rfl rfl
  setSegmentBase _ := .modify fun _ => .of_eq rfl rfl
  fetch8 _ := stays_memRead fun _ _ _ => .of_eq rfl rfl
  read8 _ := stays_memRead fun _ _ _ => .of_eq rfl rfl
  read16 _ := stays_memRead fun _ _ _ => .of_eq rfl rfl
  read32 _ := stays_memRead fun _ _ _ => .of_eq rfl rfl
  write8 _ _ := stays_memWrite fun _ _ _ => .of_eq rfl rfl
  write16 _ _ := stays_memWrite fun _ _ _ => .of_eq rfl rfl
  write32 _ _ := stays_memWrite fun _ _ _ => .of_eq rfl rfl
  core _ _ _ _ _ ht hc := .of_eq ht hc
  readBytes _ _ _ := stays_memRead fun _ _ _ => .of_eq rfl rfl
  writeBytes _ _ _ := stays_memWrite fun _ _ _ => .of_eq rfl rfl
  setFPU _ _ := .modify fun _ => .of_eq rfl rfl
  fpuPush v := ⟨fun s h => by
    by_cases hc : s.fpuCount < 8
    · rw [after_ok (fpuPush_ok hc v)]
      exact h.pushed hc v
    · rw [after_error (fpuPush_full hc v)]
      exact h⟩
  fpuPop := ⟨fun s h => by
    by_cases hc : s.fpuCount ≠ 0
    · rw [after_ok (fpuPop_ok h.top hc)]
      exact h.popped hc
    · rw [after_error (fpuPop_empty hc)]
      exact h⟩

theorem Stacked.steps {s t : Machine} (h : Stacked k s) (hrun : Relation.ReflTransGen Steps s t) :
    Stacked k t := by
  induction hrun with
  | refl => exact h
  | @tail t u _ hstep ih =>
    have hstays : Stays (KeepsStack k)
        (do if (← get).halted then return .none else stepRunning : CpuM Trap) := inferInstance
    rw [hstep.after]
    exact hstays.stays { t with log := [] } (KeepsStack.of_eq (s := t) rfl rfl ih)

/-- **The x87 stack.**  In every run from a CPU whose stack is that of `NewCPU`: the stack is
inside the register file and its bottom stays where it was; a push on a full stack and a pop on
an empty one fail and change nothing; a push and then a pop give back the value and the stack. -/
theorem x87_stack {s t : Machine} (htop : s.fpuTop = CPU.new.fpuTop)
    (hcount : s.fpuCount = CPU.new.fpuCount) (hrun : Relation.ReflTransGen Steps s t) :
    (t.fpuTop ≤ 7 ∧ t.fpuCount ≤ 8 ∧ 8 ∣ t.fpuTop.toNat + t.fpuCount.toNat) ∧
      (t.fpuCount = 8 → ∀ v, fpuPush v t = .error .x87StackOverflow t) ∧
      (t.fpuCount = 0 → fpuPop t = .error .x87StackUnderflow t) ∧
      (t.fpuCount ≠ 8 → ∀ v, ∃ u u', fpuPush v t = .ok () u ∧ fpuPop u = .ok v u' ∧
        u'.fpuTop = t.fpuTop ∧ u'.fpuCount = t.fpuCount ∧
        ∀ i < t.fpuCount, fpuST i t = .ok (t.stAt i) t ∧ fpuST i u' = .ok (t.stAt i) u') := by
  have hnew : Stacked 0 s := ⟨by rw [htop]; decide, by rw [hcount]; decide, by rw [htop, hcount]; rfl⟩
  have ht := hnew.steps hrun
  refine ⟨⟨ht.top, ht.count, Nat.dvd_of_mod_eq_zero ht.rest⟩, fun h => fpuPush_full ?_, fun h => ?_,
    fun h v => ?_⟩
  · rw [h]
    decide
  · exact fpuPop_empty (not_not.mpr h)
  have hcount := ht.count
  have hc : t.fpuCount < 8 := by bv_omega
  obtain ⟨hpop, htop', hcount', hst⟩ := popped_pushed ht hc v
  exact ⟨_, _, fpuPush_ok hc v, hpop, htop', hcount', fun i hi => ⟨fpuST_ok hi ht.count, hst i hi⟩⟩

/-- A machine about to load 1, store it back with nothing below, and load again. -/
def loadsOne : Machine :=
  { CPU.new with
    mem :=
      { size := 0x1000
        data := storeBytes (fun _ => 0) 0 [0xD9, 0xE8, 0xDD, 0xD8, 0xDD, 0xD8, 0xD9, 0xE8]
        space := { mappings := [], max := 0x1000, nextHint := 0 }
        isProtected := false }
    log := [] }

theorem x87_stack_loadsOne :
    ∃ t, Relation.ReflTransGen Steps loadsOne t ∧ t.fpuTop = 7 ∧ t.fpuCount = 1 ∧
      8 ∣ t.fpuTop.toNat + t.fpuCount.toNat ∧
      ∀ v, ∃ u u', fpuPush v t = .ok () u ∧ fpuPop u = .ok v u' ∧ u'.fpuCount = 1 := by
  let run (n : Nat) : Machine := (after step)^[n] loadsOne
  have hstep (n : Nat) (h : stepsOn (run n) = true) : Steps (run n) (run (n + 1)) := by
    rw [show run (n + 1) = after step (run n) from Function.iterate_succ_apply' _ _ _]
    exact steps_after h
  have hrun : Relation.ReflTransGen Steps loadsOne (run 4) :=
    (((Relation.ReflTransGen.single (hstep 0 (by decide +kernel))).tail
      (hstep 1 (by decide +kernel))).tail (hstep 2 (by decide +kernel))).tail
      (hstep 3 (by decide +kernel))
  have hcount : (run 4).fpuCount = 1 := by decide +kernel
  obtain ⟨hin, -, -, hpush⟩ := x87_stack rfl rfl hrun
  refine ⟨run 4, hrun, by decide +kernel, hcount, hin.2.2, fun v => ?_⟩
  obtain ⟨u, u', hu, hu', -, hc, -⟩ := hpush (by rw [hcount]; decide) v
  exact ⟨u, u', hu, hu', hc.trans hcount⟩

/-! ## No index out of range -/

class NoPanic {α : Type} (k : Nat) (x : CpuM α) : Prop where
  noPanic : ∀ s s', Stacked k s → x s ≠ .error .panic s'

section NoPanic

variable {α β : Type}

theorem NoPanic.of_ok {x : CpuM α} (h : ∀ s, Stacked k s → ∃ a s', x s = .ok a s') : NoPanic k x where
  noPanic s s' hs he := by
    obtain ⟨a, t, hok⟩ := h s hs
    rw [hok] at he
    cases he

instance (a : α) : NoPanic k (pure a : CpuM α) := .of_ok fun s _ => ⟨a, s, rfl⟩
instance : NoPanic k (get : CpuM Machine) := .of_ok fun s _ => ⟨s, s, rfl⟩
instance (f : Machine → Machine) : NoPanic k (modify f : CpuM Unit) :=
  .of_ok fun s _ => ⟨(), f s, rfl⟩
instance : NoPanic k fpuTopSlot := .of_ok fun s h => ⟨_, s, fpuTopSlot_ok h.top⟩

instance (e : Fault) [h : Fact (e ≠ .panic)] : NoPanic k (throw e : CpuM α) where
  noPanic _ _ _ he := by
    cases he
    exact h.out rfl

instance (x : CpuM α) (f : α → CpuM β) [NoPanic k x] [Stays (KeepsStack k) x]
    [∀ a, NoPanic k (f a)] : NoPanic k (x >>= f) where
  noPanic s s' hs he := by
    cases hx : x s with
    | ok a t =>
      rw [bind_of_ok hx] at he
      exact NoPanic.noPanic t s' (Stays.of_ok (R := KeepsStack k) hx hs) he
    | error e t =>
      rw [bind_of_error hx] at he
      cases he
      exact NoPanic.noPanic s _ hs hx

instance (f : α → β) (x : CpuM α) [NoPanic k x] [Stays (KeepsStack k) x] : NoPanic k (f <$> x) := by
  rw [map_eq_pure_bind]
  infer_instance

instance (c : Prop) [Decidable c] (x y : CpuM α) [hx : NoPanic k x] [hy : NoPanic k y] :
    NoPanic k (if c then x else y) := by
  split
  · exact hx
  · exact hy

instance (ok : Bool) (e : Fault) [Fact (e ≠ .panic)] : NoPanic k (require ok e) := by
  unfold require; infer_instance

instance (kind : AccessKind) (f : Memory → U32 → Except SpaceError α) (addr : U32) (width : Nat) :
    NoPanic k (memRead kind f addr width) where
  noPanic s s' _ he := by
    unfold memRead at he
    split at he <;> cases he

instance (f : Memory → U32 → Except SpaceError Memory) (addr : U32) (width : Nat) :
    NoPanic k (memWrite f addr width) where
  noPanic s s' _ he := by
    unfold memWrite at he
    split at he <;> cases he

instance (v : U64) : NoPanic k (fpuPush v) where
  noPanic s s' h he := by
    by_cases hc : s.fpuCount < 8
    · rw [fpuPush_ok hc] at he; cases he
    · rw [fpuPush_full hc] at he; cases he

instance : NoPanic k fpuPop where
  noPanic s s' h he := by
    by_cases hc : s.fpuCount ≠ 0
    · rw [fpuPop_ok h.top hc] at he; cases he
    · rw [fpuPop_empty hc] at he; cases he

instance (index : U8) : Fact (Fault.invalidX87StackRegister index ≠ .panic) := ⟨by intro h; cases h⟩
instance (index : U8) (start : U32) : Fact (Fault.invalidX87FXCH index start ≠ .panic) :=
  ⟨by intro h; cases h⟩
instance (what : String) (code : Nat) (start : U32) : Fact (Fault.unsupported what code start ≠ .panic) :=
  ⟨by intro h; cases h⟩
instance (op modrm : U8) (start : U32) : Fact (Fault.unsupportedX87 op modrm start ≠ .panic) :=
  ⟨by intro h; cases h⟩

set_option synthInstance.maxSize 2000

instance : NoPanic k fetch8 := by dsimp only [fetch8, getEIP, setEIP]; infer_instance
instance : NoPanic k fetch32 := by unfold fetch32; infer_instance

instance (modrm : U8) (what : String) (start : U32) : NoPanic k (memOperand modrm what start) := by
  dsimp only [memOperand, decodeModRMByte, operandAddr, sibAddr, scaledIndex, addDisp, getReg, getSegmentBase]
  infer_instance

instance (r : Reg) (v : U16) : NoPanic k (setReg16 r v) := by
  dsimp only [setReg16, setReg, getReg]; infer_instance

instance (slot : Reg) (v : U64) : NoPanic k (setFPU slot v) := by unfold setFPU; infer_instance
instance (v : U64) : NoPanic k (setST0 v) := by unfold setST0; infer_instance
instance (index : U8) (v : U64) : NoPanic k (setST index v) := by unfold setST; infer_instance
instance (index : U8) : NoPanic k (fpuST index) := by unfold fpuST; infer_instance
instance (addr : U32) : NoPanic k (read16 addr) := by unfold read16; infer_instance
instance (addr : U32) : NoPanic k (read32 addr) := by unfold read32; infer_instance
instance (addr : U32) (n : Nat) : NoPanic k (readBytes addr n) := by unfold readBytes; infer_instance
instance (addr : U32) (v : U16) : NoPanic k (write16 addr v) := by unfold write16; infer_instance
instance (addr v : U32) : NoPanic k (write32 addr v) := by unfold write32; infer_instance
instance (addr : U32) (bytes : List U8) : NoPanic k (writeBytes addr bytes) := by
  unfold writeBytes; infer_instance
instance (addr : U32) (v : U64) : NoPanic k (write64 addr v) := by unfold write64; infer_instance

instance (op : U8) (start : U32) : NoPanic k (stepX87 op start) := by
  dsimp only [stepX87, fmapST0, fprem, ftst, fnstsw, fxch, fldST0, controlWord, fload, fstp80,
    fistp32, fistp64, fstpST, fintoST, faddST0, fcomp, fcombine, fst64, fstp64, fdrop, fpuCompare,
    readReal32, read64, doIf]
  infer_instance

end NoPanic

theorem stepX87_noPanic {s t t' : Machine} (htop : s.fpuTop ≤ 7) (hcount : s.fpuCount ≤ 8)
    (hrun : Relation.ReflTransGen Steps s t) (op : U8) (start : U32) :
    stepX87 op start t ≠ .error .panic t' :=
  NoPanic.noPanic t t' (Stacked.steps ⟨htop, hcount, rfl⟩ hrun)

end IshGo.I386
