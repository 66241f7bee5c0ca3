/-
# `IshGo.I386.Walk` — an instruction is a sequence of checked accesses

`DispatchRel R` says that a preorder `R` on machines holds across the operations that
the dispatch is made of.  Then it holds across every instruction: `Stays R stepRunning`.
`MemRel R` is the case of an `R` that looks at the memory and the log only, and holds
across each access that the accessors of `Memory` let through.
-/
import IshGo.I386.Access
import IshGo.I386.Step

namespace IshGo.I386

open Lib

/-- `R` holds across the operations that operands are read and written with. -/
class OperandRel (R : Machine → Machine → Prop) : Prop extends IsPreorder Machine R where
  setReg : ∀ r v, Stays R (setReg r v)
  setEIP : ∀ v, Stays R (setEIP v)
  setSegmentBase : ∀ base, Stays R (setSegmentBase base)
  fetch8 : ∀ addr, Stays R (memRead .fetch Memory.fetch8 addr 1)
  read8 : ∀ addr, Stays R (read8 addr)
  read16 : ∀ addr, Stays R (read16 addr)
  read32 : ∀ addr, Stays R (read32 addr)
  write8 : ∀ addr v, Stays R (write8 addr v)
  write16 : ∀ addr v, Stays R (write16 addr v)
  write32 : ∀ addr v, Stays R (write32 addr v)

/-- `R` holds also across the accesses and the stack operations of the x87, and across all
that leaves memory and that stack alone. -/
class DispatchRel (R : Machine → Machine → Prop) : Prop extends OperandRel R where
  core : ∀ s s', s'.mem = s.mem → s'.log = s.log → s'.fpu = s.fpu → s'.fpuTop = s.fpuTop →
    s'.fpuCount = s.fpuCount → R s s'
  readBytes : ∀ addr size, size ≤ 10 → Stays R (readBytes addr size)
  writeBytes : ∀ addr bytes, bytes.length ≤ 10 → Stays R (writeBytes addr bytes)
  setFPU : ∀ slot v, Stays R (setFPU slot v)
  fpuPush : ∀ v, Stays R (fpuPush v)
  fpuPop : Stays R fpuPop

/-- `R` holds across everything that leaves memory alone, and across every access
that passes its check.  No instruction writes more than ten bytes at once. -/
class MemRel (R : Machine → Machine → Prop) : Prop extends IsPreorder Machine R where
  same : ∀ s s', s'.mem = s.mem → s'.log = s.log → R s s'
  fetch : ∀ (s : Machine) addr, s.mem.checkAccess addr 1 protExec = .ok () →
    R s { s with log := ⟨.fetch, addr, 1⟩ :: s.log }
  read : ∀ (s : Machine) addr (width : Nat), width ≤ 10 →
    s.mem.checkAccess addr (BitVec.ofNat 32 width) protRead = .ok () →
    R s { s with log := ⟨.read, addr, width⟩ :: s.log }
  write : ∀ (s : Machine) addr (bytes : List U8) mem, bytes.length ≤ 10 →
    s.mem.writeBytes addr bytes = .ok mem →
    R s { s with mem := mem, log := ⟨.write, addr, bytes.length⟩ :: s.log }

open MemRel

theorem map_readWith_ok {α : Type} {m : Memory} {ok : Except SpaceError Unit} {addr : U32}
    {width : Nat} {f : List U8 → α} {v : α} (h : (m.readWith ok addr width).map f = .ok v) : ok = .ok () := by
  cases hr : m.readWith ok addr width with
  | error e =>
    rw [hr] at h
    cases h
  | ok bs => exact (Memory.readWith_ok hr).1

theorem length_fpuExtended80 (value : U64) : (fpuExtended80 value).length = 10 := by
  unfold fpuExtended80
  rw [List.length_append, length_leBytes, length_leBytes]

-- An arm is one search; the longest have some hundred nodes.
set_option synthInstance.maxSize 2000

/-! ## Operands -/

section Operands

variable {R : Machine → Machine → Prop} [OperandRel R]

instance (r : Reg) (v : U32) : Stays R (setReg r v) := OperandRel.setReg r v
instance (v : U32) : Stays R (setEIP v) := OperandRel.setEIP v
instance (base : CPU → U32) : Stays R (setSegmentBase base) := OperandRel.setSegmentBase base
instance (addr : U32) : Stays R (memRead .fetch Memory.fetch8 addr 1) := OperandRel.fetch8 addr
instance (addr : U32) : Stays R (read8 addr) := OperandRel.read8 addr
instance (addr : U32) : Stays R (read16 addr) := OperandRel.read16 addr
instance (addr : U32) : Stays R (read32 addr) := OperandRel.read32 addr
instance (addr : U32) (v : U8) : Stays R (write8 addr v) := OperandRel.write8 addr v
instance (addr : U32) (v : U16) : Stays R (write16 addr v) := OperandRel.write16 addr v
instance (addr : U32) (v : U32) : Stays R (write32 addr v) := OperandRel.write32 addr v

instance (r : Reg) : Stays R (getReg r) := by unfold getReg; infer_instance
instance : Stays R getFlags := by unfold getFlags; infer_instance
instance : Stays R getEIP := by unfold getEIP; infer_instance
instance : Stays R getSegmentBase := by unfold getSegmentBase; infer_instance
instance (ok : Bool) (e : Fault) : Stays R (require ok e) := by unfold require; infer_instance

instance : Stays R fetch8 := by unfold fetch8; infer_instance
instance : Stays R fetch16 := by unfold fetch16; infer_instance
instance : Stays R fetch32 := by unfold fetch32; infer_instance
instance (v : U32) : Stays R (push v) := by unfold push; infer_instance
instance : Stays R pop := by unfold pop; infer_instance

instance (op : U8) : Stays R (condition op) := by unfold condition; infer_instance
instance : Stays R carryIn := by unfold carryIn; infer_instance
instance (r : Reg) : Stays R (byteReg r) := by unfold byteReg; infer_instance
instance (r : Reg) (v : U8) : Stays R (setByteReg r v) := by unfold setByteReg; infer_instance
instance (r : Reg) (v : U16) : Stays R (setReg16 r v) := by unfold setReg16; infer_instance

instance (v : U8) : Stays R (decodeModRMByte v) := by
  dsimp only [decodeModRMByte, operandAddr, sibAddr, scaledIndex, addDisp]
  infer_instance

instance : Stays R decodeModRM := by unfold decodeModRM; infer_instance

instance (m : ModRM) : Stays R (readRM8 m) := by unfold readRM8; infer_instance
instance (m : ModRM) : Stays R (readRM16 m) := by unfold readRM16; infer_instance
instance (m : ModRM) : Stays R (readRM m) := by unfold readRM; infer_instance
instance (m : ModRM) (v : U8) : Stays R (writeRM8 m v) := by unfold writeRM8; infer_instance
instance (m : ModRM) (v : U16) : Stays R (writeRM16 m v) := by unfold writeRM16; infer_instance
instance (m : ModRM) (v : U32) : Stays R (writeRM m v) := by unfold writeRM; infer_instance

instance (operand16 : Bool) (m : ModRM) : Stays R (readRMv operand16 m) := by
  unfold readRMv; infer_instance

instance (operand16 : Bool) (m : ModRM) (v : U32) : Stays R (writeRMv operand16 m v) := by
  unfold writeRMv; infer_instance

instance (cond : Bool) (x : CpuM Unit) [Stays R x] : Stays R (doIf cond x) := by
  unfold doIf; infer_instance

instance (rel : U32) : Stays R (jump rel) := by unfold jump; infer_instance

instance staysMovsLoop (op : U8) (step : U32) : ∀ count, Stays R (movsLoop op step count)
  | 0 => Stays.pure ()
  | count + 1 => by
      have := staysMovsLoop op step count
      dsimp only [movsLoop, movsUnit, advance]
      infer_instance

instance staysPrefixLoop : ∀ (fuel : Nat) (p : Prefixes), Stays R (prefixLoop fuel p)
  | 0, _ => Stays.throw _
  | fuel + 1, p => by
      have := staysPrefixLoop fuel
      dsimp only [prefixLoop, prefixByte]
      infer_instance

/-! The instructions that only move. -/

instance (op : U8) : Stays R (movR8Imm8 op) := by unfold movR8Imm8; infer_instance
instance (op : U8) : Stays R (movR32Imm32 op) := by unfold movR32Imm32; infer_instance
instance (op : U8) : Stays R (pushReg op) := by unfold pushReg; infer_instance
instance (op : U8) : Stays R (popReg op) := by unfold popReg; infer_instance
instance : Stays R pushImm32 := by unfold pushImm32; infer_instance
instance : Stays R pushImm8 := by unfold pushImm8; infer_instance
instance : Stays R cdq := by unfold cdq; infer_instance
instance (op : U8) : Stays R (xchgEAX op) := by unfold xchgEAX; infer_instance
instance : Stays R xchgRM := by unfold xchgRM; infer_instance
instance : Stays R ret := by unfold ret; infer_instance
instance : Stays R retImm16 := by unfold retImm16; infer_instance
instance : Stays R leave := by unfold leave; infer_instance
instance : Stays R callRel := by unfold callRel; infer_instance
instance : Stays R jmpRel32 := by unfold jmpRel32; infer_instance
instance : Stays R jmpRel8 := by unfold jmpRel8; infer_instance
instance (op : U8) : Stays R (jccRel8 op) := by unfold jccRel8; infer_instance
instance (ext : U8) : Stays R (jccRel32 ext) := by unfold jccRel32; infer_instance
instance (ext : U8) : Stays R (bswap ext) := by unfold bswap; infer_instance
instance (ext : U8) : Stays R (setcc ext) := by unfold setcc; infer_instance
instance (ext : U8) : Stays R (movExtend ext) := by unfold movExtend; infer_instance
instance (start : U32) : Stays R (movRM8Imm8 start) := by unfold movRM8Imm8; infer_instance
instance (op : U8) : Stays R (movMoffs op) := by unfold movMoffs; infer_instance
instance (op : U8) : Stays R (movByte op) := by unfold movByte; infer_instance
instance (m : ModRM) : Stays R (lea m) := by unfold lea; infer_instance

instance (start : U32) (operand16 : Bool) (m : ModRM) : Stays R (movRMImm start operand16 m) := by
  unfold movRMImm; infer_instance

instance (op : U8) (operand16 : Bool) (m : ModRM) : Stays R (movRM op operand16 m) := by
  unfold movRM; infer_instance

instance (op : U8) (rep : Bool) : Stays R (movs op rep) := by
  dsimp only [movs, repCount, stringStep]
  infer_instance

end Operands

section Accesses

variable {R : Machine → Machine → Prop} [Std.Refl R] {addr : U32} {width : Nat}

theorem stays_memRead {α : Type} {kind : AccessKind} {f : Memory → U32 → Except SpaceError α}
    (h : ∀ (s : Machine) v, f s.mem addr = .ok v → R s { s with log := ⟨kind, addr, width⟩ :: s.log }) :
    Stays R (memRead kind f addr width) where
  stays s := by
    cases hv : f s.mem addr with
    | ok v =>
      rw [after, memRead, hv]
      exact h s v hv
    | error e =>
      rw [after, memRead, hv]
      exact Std.Refl.refl s

theorem stays_memWrite {f : Memory → U32 → Except SpaceError Memory}
    (h : ∀ (s : Machine) mem, f s.mem addr = .ok mem →
      R s { s with mem := mem, log := ⟨.write, addr, width⟩ :: s.log }) :
    Stays R (memWrite f addr width) where
  stays s := by
    cases hv : f s.mem addr with
    | ok mem =>
      rw [after, memWrite, hv]
      exact h s mem hv
    | error e =>
      rw [after, memWrite, hv]
      exact Std.Refl.refl s

end Accesses

section Memory

variable {R : Machine → Machine → Prop} [MemRel R]

theorem stays_modify {f : Machine → Machine} (hm : ∀ s, (f s).mem = s.mem)
    (hl : ∀ s, (f s).log = s.log) : Stays R (modify f : CpuM Unit) :=
  .modify fun s => same s (f s) (hm s) (hl s)

theorem stays_writeBytes (addr : U32) (bytes : List U8) (hb : bytes.length ≤ 10) :
    Stays R (memWrite (fun m a => m.writeBytes a bytes) addr bytes.length) :=
  stays_memWrite fun s mem h => write s addr bytes mem hb h

instance : OperandRel R where
  setReg _ _ := stays_modify (fun _ => rfl) (fun _ => rfl)
  setEIP _ := stays_modify (fun _ => rfl) (fun _ => rfl)
  setSegmentBase _ := stays_modify (fun _ => rfl) (fun _ => rfl)
  fetch8 addr := stays_memRead fun s _ h => fetch s addr (map_readWith_ok h)
  read8 addr := stays_memRead fun s _ h => read s addr 1 (by omega) (map_readWith_ok h)
  read16 addr := stays_memRead fun s _ h => read s addr 2 (by omega) (map_readWith_ok h)
  read32 addr := stays_memRead fun s _ h => read s addr 4 (by omega) (map_readWith_ok h)
  write8 addr v := stays_writeBytes addr (leBytes v 1) (by rw [length_leBytes]; omega)
  write16 addr v := stays_writeBytes addr (leBytes v 2) (by rw [length_leBytes]; omega)
  write32 addr v := stays_writeBytes addr (leBytes v 4) (by rw [length_leBytes]; omega)

instance : DispatchRel R where
  core s s' hm hl _ _ _ := same s s' hm hl
  readBytes addr size hsize := stays_memRead fun s _ h =>
    read s addr size hsize (Memory.readWith_ok h).1
  writeBytes addr bytes hb := stays_writeBytes addr bytes hb
  setFPU _ _ := stays_modify (fun _ => rfl) (fun _ => rfl)
  fpuPush v := by
    have hm (g : Machine → CPU) :
        Stays R (modify fun s => { toCPU := g s, mem := s.mem, log := s.log } : CpuM Unit) :=
      stays_modify (fun _ => rfl) (fun _ => rfl)
    dsimp only [fpuPush, setST0, setFPU, fpuTopSlot]
    infer_instance
  fpuPop := by
    have hm (g : Machine → CPU) :
        Stays R (modify fun s => { toCPU := g s, mem := s.mem, log := s.log } : CpuM Unit) :=
      stays_modify (fun _ => rfl) (fun _ => rfl)
    dsimp only [fpuPop, fpuTopSlot]
    infer_instance

end Memory

section Walk

variable {R : Machine → Machine → Prop} [DispatchRel R]

/-! ## The operations that touch the state -/

instance (regs : Machine → Reg → U32) (eip eflags fsBase gsBase base last : Machine → U32)
    (halted onSyscall : Machine → Bool) (steps : Machine → U64)
    (fs gs status control : Machine → U16) (opcode : Machine → U8) :
    Stays R (modify fun s =>
      { regs := regs s, eip := eip s, eflags := eflags s, halted := halted s, steps := steps s,
        onSyscall := onSyscall s, fsBase := fsBase s, gsBase := gsBase s, fsSelector := fs s,
        gsSelector := gs s, segmentBase := base s, lastEIP := last s, lastOpcode := opcode s,
        fpu := s.fpu, fpuTop := s.fpuTop, fpuCount := s.fpuCount, fpuStatus := status s,
        fpuControl := control s, mem := s.mem, log := s.log } : CpuM Unit) :=
  .modify fun s => DispatchRel.core s _ rfl rfl rfl rfl rfl

instance (f : U32) : Stays R (setFlags f) := by unfold setFlags; infer_instance
instance (g : U32 → U32) : Stays R (updateFlags g) := by unfold updateFlags; infer_instance
instance (flag : U32) (on : Bool) : Stays R (putFlag flag on) := by unfold putFlag; infer_instance

instance (x : CpuM Unit) [Stays R x] : Stays R (keepCarry x) := by
  unfold keepCarry; infer_instance

instance (addr : U32) (v : U64) : Stays R (write64 addr v) :=
  DispatchRel.writeBytes addr (leBytes v 8) (by rw [length_leBytes]; omega)
instance (addr : U32) (v : U64) : Stays R (writeBytes addr (fpuExtended80 v)) :=
  DispatchRel.writeBytes addr (fpuExtended80 v) (by rw [length_fpuExtended80])
instance (addr : U32) : Stays R (readBytes addr 8) := DispatchRel.readBytes addr 8 (by omega)
instance (addr : U32) : Stays R (readBytes addr 10) := DispatchRel.readBytes addr 10 (by omega)

/-! ## The arms with a loop or a match -/

instance staysStosLoop (op : U8) (step : U32) : ∀ count, Stays R (stosLoop op step count)
  | 0 => Stays.pure ()
  | count + 1 => by
      have := staysStosLoop op step count
      dsimp only [stosLoop, stosUnit, advance]
      infer_instance

instance (m : ModRM) (start : U32) : ∀ r, Stays R (storeShift8 m start r)
  | none => Stays.throw _
  | some _ => by dsimp only [storeShift8, setShiftFlagsN]; infer_instance

instance (operand16 : Bool) (m : ModRM) (start : U32) : ∀ r, Stays R (storeShiftN operand16 m start r)
  | none => Stays.throw _
  | some _ => by dsimp only [storeShiftN, setShiftFlagsN, setShiftFlags]; infer_instance

/-! ## The x87 -/

instance : Stays R fpuTopSlot := by unfold fpuTopSlot; infer_instance
instance (slot : Reg) (v : U64) : Stays R (setFPU slot v) := DispatchRel.setFPU slot v
instance (v : U64) : Stays R (setST0 v) := by unfold setST0; infer_instance
instance (index : U8) (v : U64) : Stays R (setST index v) := by unfold setST; infer_instance
instance (v : U64) : Stays R (fpuPush v) := DispatchRel.fpuPush v
instance : Stays R fpuPop := DispatchRel.fpuPop
instance (index : U8) : Stays R (fpuST index) := by unfold fpuST; infer_instance

instance (modrm : U8) (what : String) (start : U32) : Stays R (memOperand modrm what start) := by
  unfold memOperand; infer_instance

instance (op : U8) (start : U32) : Stays R (stepX87 op start) := by
  dsimp only [stepX87, fmapST0, fprem, ftst, fnstsw, fxch, fldST0, controlWord, fload, fstp80,
    fistp32, fistp64, fstpST, fintoST, faddST0, fcomp, fcombine, fst64, fstp64, fdrop, fpuCompare,
    readReal32, read64]
  infer_instance

/-! ## The parts of the dispatch -/

instance (start : U32) : Stays R (stepExtended start) := by
  dsimp only [stepExtended, nopRM, shiftDouble, groupBA, bitString, bitScan,
    cmpxchg, imulRM, setShiftFlags, setSubFlags, setLogicFlags]
  infer_instance

instance (op : U8) (start : U32) (p : Prefixes) : Stays R (stepForms op start p) := by
  dsimp only [stepForms, sbbR8, sbbRM8, sbbWord, adcByte, adcWord, orByte, andByte, xorByte,
    logicWord, wordForms, byteForm, cmpR8, arithWord, getRegV, setRegV,
    setSBBFlagsN, setADCFlagsN, setLogicFlagsN, setLogicFlags, setSubFlagsN, setSubFlags,
    setAddFlagsN, setAddFlags]
  infer_instance

instance (op : U8) (start : U32) (p : Prefixes) : Stays R (stepImmediate op start p) := by
  dsimp only [stepImmediate, movSreg, logicAccImm, testEAXImm, testALImm, cmpALImm,
    group81, aluImm, aluWord, testWord, addByte, byteForm, addAccImm, andAccImm, orAccImm,
    adcAccImm, addEAXImm, subEAXImm, cmpEAXImm, setAddFlagsV, setSubFlagsV, setLogicFlagsV,
    setSBBFlagsN, setADCFlagsN, setLogicFlagsN, setLogicFlags, setSubFlagsN, setSubFlags,
    setAddFlagsN, setAddFlags]
  infer_instance

instance (start : U32) (byte : Bool) (m : ModRM) (value : U32) : Stays R (unaryGroup start byte m value) := by
  dsimp only [unaryGroup, testImm, notRM, negRM, mulByte, mulWord, divGroup, idivByte, divByte,
    idivWord, divWord, wideDividend, setLogicFlagsN, setLogicFlags, setSubFlagsN, setSubFlags]
  infer_instance

instance (op : U8) (start : U32) (operand16 : Bool) : Stays R (groupF6F7 op start operand16) := by
  dsimp only [groupF6F7, test16, setLogicFlagsN]
  infer_instance

instance (op : U8) (start : U32) (p : Prefixes) : Stays R (stepGroups op start p) := by
  dsimp only [stepGroups, groupFE, groupFF, imulImm, groupC0, groupC1, shiftCount,
    cmpByte, group80, aluByte, testByte, stos, repCount, stringStep,
    setLogicFlagsN, setLogicFlags, setSubFlagsN, setSubFlags, setAddFlagsN, setAddFlags]
  infer_instance

instance (op : U8) (start : U32) (p : Prefixes) : Stays R (stepControl op start p) := by
  dsimp only [stepControl, sahf]
  infer_instance

instance (op : U8) (start : U32) (p : Prefixes) : Stays R (stepOpcode op start p) := by
  dsimp only [stepOpcode, incReg, decReg, hlt, setAddFlags, setSubFlags]
  infer_instance

instance : Stays R stepRunning := by
  dsimp only [stepRunning, stepFetch, stepInt, stepDone]
  infer_instance

end Walk

end IshGo.I386
