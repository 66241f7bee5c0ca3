/-
# `IshGo.I386.Binary` — the instructions with two operands

ADD, OR, ADC, SBB, AND, SUB, XOR, CMP, TEST and MOV, in the encodings that `CPU.Step` has.  The
source carries each encoding out in its own arm; here an encoding is a `Form`: the operation, the
width, and where the operands stand (`Shape`).  `formTable` is the table of what the arms do, opcode
by opcode, and `runs_form` is the proof of the table.  Two of its lines differ from the
manual's: 2A works on words, and the prefix 66 counts only where the table says `v`.
-/
import IshGo.I386.Instruction

namespace IshGo.I386

open Lib Machine Width BitVec

variable {Q : U32 → Machine → Prop} {c : Bool} {op : U8} {r start : U32} {w : Nat}
variable {operand16 : Bool} {s t : Machine}
variable {F : Form} {digit : Reg} {sh : Shape}

/-! ## Operations -/

inductive AluOp where
  | add
  | or
  | adc
  | sbb
  | and
  | sub
  | xor
  | cmp
  | test
  | mov
  deriving DecidableEq, Repr

open AluOp

namespace AluOp

/-- The operations of the groups 80, 81 and 83, by their digit. -/
def ofDigit (digit : Reg) : AluOp :=
  if digit = 0 then add else if digit = 1 then or else if digit = 2 then adc
  else if digit = 3 then sbb else if digit = 4 then and else if digit = 5 then sub
  else if digit = 6 then xor else cmp

def apply (c : Bool) (a b : BitVec w) : AluOp → BitVec w
  | add => a + b
  | or => a ||| b
  | adc => addCarry a b c
  | sbb => subBorrow a b c
  | and | test => a &&& b
  | sub | cmp => a - b
  | xor => a ^^^ b
  | mov => b

def writes : AluOp → Bool
  | cmp | test => false
  | _ => true

/-- The flags that the operation has; MOV has none. -/
def status (c : Bool) (a b : BitVec w) : AluOp → Option Status
  | add => some (sumStatus a b false)
  | adc => some (sumStatus a b c)
  | sub | cmp => some (diffStatus a b false)
  | sbb => some (diffStatus a b c)
  | or => some (resultStatus (a ||| b) false false)
  | and | test => some (resultStatus (a &&& b) false false)
  | xor => some (resultStatus (a ^^^ b) false false)
  | mov => none

/-- The flags that the source gives it. -/
def statusSet (op : AluOp) (c : Bool) (a b : BitVec w) : Option Status :=
  if op = sbb then some (sbbStatus a b c) else op.status c a b

def flagsSet (op : AluOp) (f : U32) (a b : BitVec w) : U32 :=
  (op.statusSet (carryFlag f) a b).elim f (·.into f)

end AluOp

/-! ## Encodings -/

inductive Shape where
  /-- r/m, r -/
  | rmReg
  /-- r, r/m -/
  | regRm
  /-- accumulator, immediate -/
  | accImm
  /-- r/m, immediate -/
  | rmImm
  /-- r/m, sign-extended byte -/
  | rmImm8
  /-- r of the opcode, immediate -/
  | regImm
  /-- accumulator, absolute address -/
  | accMoffs
  /-- absolute address, accumulator -/
  | moffsAcc
  deriving DecidableEq, Repr

open Shape

namespace Shape

variable (w : Width) (op : U8) (v : View)

def rm : Operand := (modRMAt v.regs v.code).operand v.base

def dst : Shape → Operand
  | rmReg | rmImm | rmImm8 => rm v
  | regRm => .reg (digitAt v.code)
  | accImm | accMoffs => .reg EAX
  | regImm => .reg (opReg op)
  | moffsAcc => .mem (immAt .dword v.code 0 + v.base)

def src : Shape → Operand
  | rmReg => .reg (digitAt v.code)
  | regRm => rm v
  | accImm | regImm => .imm ((immAt w v.code 0).setWidth 32)
  | rmImm => .imm ((immAt w v.code (modRMLength v.code)).setWidth 32)
  | rmImm8 => .imm ((v.code (modRMLength v.code)).signExtend 32)
  | accMoffs => .mem (immAt .dword v.code 0 + v.base)
  | moffsAcc => .reg EAX

def length : Shape → Nat
  | rmReg | regRm => modRMLength v.code
  | accImm | regImm => w.bytes
  | rmImm => modRMLength v.code + w.bytes
  | rmImm8 => modRMLength v.code + 1
  | accMoffs | moffsAcc => 4

end Shape

structure Form where
  op : AluOp
  width : Width
  shape : Shape
  deriving DecidableEq, Repr

open Form

def Form.effect (F : Form) (op : U8) (v : View) : Effect :=
  let dst := F.shape.dst op v
  let src := F.shape.src F.width v
  let a := dst.value F.width v.regs v.data
  let b := src.value F.width v.regs v.data
  { width := F.width
    dst := dst
    result := if F.op.writes then some (F.op.apply (carryFlag v.eflags) a b) else none
    eflags := F.op.flagsSet v.eflags a b
    reads := (if F.op = .mov then [] else dst.access .read F.width) ++ src.access .read F.width }

/-! ## The ends of an arm -/

def Runs (x : CpuM Unit) (op : U8) (F : Form) (t : Machine) : Prop :=
  Executes x t (F.effect op t.view) (F.shape.length F.width t.view)

structure Ready (F : Form) (op : U8) (t T : Machine) : Prop where
  regs : T.regs = t.regs
  mem : T.mem = t.mem
  accesses : T.accesses = (F.effect op t.view).reads ++ t.accesses
  eip : T.eip = t.eip + BitVec.ofNat 32 (F.shape.length F.width t.view)

open Ready

namespace Form

def lhs (F : Form) (op : U8) (v : View) : BitVec F.width.bits :=
  (F.shape.dst op v).value F.width v.regs v.data

def rhs (F : Form) (v : View) : BitVec F.width.bits :=
  (F.shape.src F.width v).value F.width v.regs v.data

def Done (F : Form) (op : U8) (t u : Machine) : Prop :=
  (F.effect op t.view).Done (F.shape.length F.width t.view) t u

end Form

/-! ## Immediates -/

theorem immAt_byte (code : Nat → U8) (k : Nat) : immAt .byte code k = code k := by
  show leValue 8 [code (k + 0)] = code k
  simp [leValue]

theorem narrow_back (hw : w ≤ 32) (v : BitVec w) : (v.setWidth 32).setWidth w = v := by
  rw [setWidth_setWidth_of_le _ hw, setWidth_eq]

namespace Form

variable (o : AluOp) (w : Width) (v : View)

theorem rhs_accImm : rhs ⟨o, w, .accImm⟩ v = immAt w v.code 0 := narrow_back w.bits_le _

theorem rhs_regImm : rhs ⟨o, w, .regImm⟩ v = immAt w v.code 0 := narrow_back w.bits_le _

theorem rhs_rmImm : rhs ⟨o, w, .rmImm⟩ v = immAt w v.code (modRMLength v.code) :=
  narrow_back w.bits_le _

theorem rhs_rmImm8 :
    rhs ⟨o, w, .rmImm8⟩ v = ((v.code (modRMLength v.code)).signExtend 32).setWidth w.bits := rfl

end Form

namespace Ready

variable {T : Machine} {a b : BitVec F.width.bits} {f : U32}

theorem kept (h : Ready F op t T) (hw : F.op.writes = false) (ha : F.lhs op t.view = a)
    (hb : F.rhs t.view = b) (hf : f = F.op.flagsSet t.eflags a b) : F.Done op t (T.withFlags f) := by
  have hres : (F.effect op t.view).result = none := if_neg (by rw [hw]; exact Bool.false_ne_true)
  subst ha hb
  refine ⟨⟨?_, ?_, hf, ?_⟩, h.eip⟩
  · rw [Effect.regs, hres]
    exact h.regs
  · rw [Effect.data, hres]
    exact h.mem
  · rw [Effect.writes, hres]
    exact h.accesses

theorem written (h : Ready F op t T) (hw : F.op.writes = true) {r : BitVec F.width.bits}
    (ha : F.lhs op t.view = a) (hb : F.rhs t.view = b)
    (hr : r = F.op.apply (carryFlag t.eflags) a b) (hf : f = F.op.flagsSet t.eflags a b) :
    F.Done op t ((T.stored F.width r (F.shape.dst op t.view)).withFlags f) := by
  subst ha hb
  have hres : (F.effect op t.view).result = some r := by
    rw [hr]
    exact if_pos hw
  refine ⟨⟨?_, ?_, hf, ?_⟩, h.eip⟩
  · rw [Effect.regs, hres, ← h.regs]
    rfl
  · rw [Effect.data, hres, ← h.mem]
    rfl
  · rw [Effect.writes, hres, accesses_withFlags, accesses_stored, h.accesses, List.append_assoc]
    rfl

/-- MOV ends with the source stored. -/
theorem moved {w : Width} {r : BitVec w.bits} (h : Ready ⟨.mov, w, sh⟩ op t T)
    (hb : rhs ⟨.mov, w, sh⟩ t.view = r) (hflags : T.eflags = t.eflags) :
    Form.Done ⟨.mov, w, sh⟩ op t (T.stored w r (sh.dst op t.view)) := by
  have hdone := h.written rfl (a := _) (r := r) rfl hb rfl rfl
  have hsame : (T.stored w r (sh.dst op t.view)).withFlags t.eflags = T.stored w r (sh.dst op t.view) := by
    rw [← hflags]
    rfl
  rw [← hsame]
  exact hdone

/-! By shape: the state in which the operands have been read. -/

variable {o : AluOp} {w : Width}

/-- What is fetched comes first; then r/m is read, and no other operand. -/
theorem of_rm (ho : o ≠ .mov) (hdst : sh.dst op t.view = rm t.view)
    (hsrc : (sh.src w t.view).access .read w = []) :
    Ready ⟨o, w, sh⟩ op t ((t.fetched (sh.length w t.view)).loaded w (rm t.view)) := by
  refine ⟨rfl, rfl, ?_, rfl⟩
  show _ = ((if o = .mov then [] else (sh.dst op t.view).access .read w) ++ (sh.src w t.view).access .read w) ++ _
  rw [if_neg ho, hdst, hsrc, accesses_loaded, accesses_fetched, List.append_nil]

theorem rmReg (ho : o ≠ .mov) :
    Ready ⟨o, w, .rmReg⟩ op t ((t.fetched (modRMLength t.code)).loaded w (rm t.view)) := of_rm ho rfl rfl

theorem rmReg_mov : Ready ⟨.mov, w, .rmReg⟩ op t (t.fetched (modRMLength t.code)) :=
  ⟨rfl, rfl, t.accesses_fetched _, rfl⟩

theorem regRm : Ready ⟨o, w, .regRm⟩ op t ((t.fetched (modRMLength t.code)).loaded w (rm t.view)) := by
  refine ⟨rfl, rfl, ?_, rfl⟩
  show _ = ((if o = .mov then [] else []) ++ _) ++ _
  rw [ite_self, accesses_loaded, accesses_fetched]
  rfl

theorem accImm : Ready ⟨o, w, .accImm⟩ op t (t.fetched w.bytes) := by
  refine ⟨rfl, rfl, ?_, rfl⟩
  show _ = ((if o = .mov then [] else []) ++ []) ++ _
  rw [ite_self, accesses_fetched]
  rfl

theorem regImm : Ready ⟨o, w, .regImm⟩ op t (t.fetched w.bytes) := by
  refine ⟨rfl, rfl, ?_, rfl⟩
  show _ = ((if o = .mov then [] else []) ++ []) ++ _
  rw [ite_self, accesses_fetched]
  rfl

theorem rmImm (ho : o ≠ .mov) : Ready ⟨o, w, .rmImm⟩ op t
    ((t.fetched (modRMLength t.code + w.bytes)).loaded w (rm t.view)) := of_rm ho rfl rfl

theorem rmImm_late (ho : o ≠ .mov) : Ready ⟨o, w, .rmImm⟩ op t
    (((t.fetched (modRMLength t.code)).loaded w (rm t.view)).fetched w.bytes) := by
  refine ⟨rfl, rfl, ?_, ?_⟩
  · show _ = ((if o = .mov then [] else _) ++ []) ++ _
    rw [if_neg ho, accesses_fetched, accesses_loaded, accesses_fetched, List.append_nil]
    rfl
  · show t.eip + _ + _ = _
    rw [BitVec.add_assoc, ← BitVec.ofNat_add]
    rfl

theorem rmImm_mov : Ready ⟨.mov, w, .rmImm⟩ op t (t.fetched (modRMLength t.code + w.bytes)) :=
  ⟨rfl, rfl, t.accesses_fetched _, rfl⟩

theorem rmImm8 (ho : o ≠ .mov) : Ready ⟨o, w, .rmImm8⟩ op t
    ((t.fetched (modRMLength t.code + 1)).loaded w (rm t.view)) := of_rm ho rfl rfl

theorem accMoffs : Ready ⟨.mov, w, .accMoffs⟩ op t
    ((t.fetched 4).loaded w (.mem (immAt .dword t.code 0 + t.segmentBase))) := by
  refine ⟨rfl, rfl, ?_, rfl⟩
  rfl

theorem moffsAcc : Ready ⟨.mov, w, .moffsAcc⟩ op t (t.fetched 4) :=
  ⟨rfl, rfl, t.accesses_fetched _, rfl⟩

end Ready

/-! ## Flags -/

section Setters
variable {Q : Unit → Machine → Prop} {a b : BitVec w}

theorem ensures_setSubFlagsN (hw₀ : 0 < w) (hw : w ≤ 32) (hr : r.setWidth w = a - b) :
    Ensures (setSubFlagsN (a.setWidth 32) (b.setWidth 32) r w) s Q ↔
      Q () (s.withFlags ((diffStatus a b false).into s.eflags)) := by
  rw [setSubFlagsN, ensures_updateFlags, subFlagsN_eq _ hw₀ hw hr]

theorem ensures_setAddFlagsN (hw₀ : 0 < w) (hw : w ≤ 32) :
    Ensures (setAddFlagsN (a.setWidth 32) (b.setWidth 32) r w) s Q ↔
      Q () (s.withFlags ((sumStatus a b false).into s.eflags)) := by
  rw [setAddFlagsN, ensures_updateFlags, addFlagsN_eq _ hw₀ hw]

theorem ensures_setADCFlagsN (hw₀ : 0 < w) (hw : w ≤ 32) :
    Ensures (setADCFlagsN (a.setWidth 32) (b.setWidth 32) (carryWord c) r w) s Q ↔
      Q () (s.withFlags ((sumStatus a b c).into s.eflags)) := by
  rw [setADCFlagsN, ensures_updateFlags, adcFlagsN_eq _ hw₀ hw]

theorem ensures_setSBBFlagsN (hw₀ : 0 < w) (hw : w ≤ 32) (hr : r.setWidth w = subBorrow a b c) :
    Ensures (setSBBFlagsN (a.setWidth 32) (b.setWidth 32) (carryWord c) r w) s Q ↔
      Q () (s.withFlags ((sbbStatus a b c).into s.eflags)) := by
  rw [setSBBFlagsN, ensures_updateFlags, sbbFlagsN_eq _ hw₀ hw hr]

theorem ensures_setLogicFlagsN (hw₀ : 0 < w) (hw : w ≤ 32) (hr : r.setWidth w = a) :
    Ensures (setLogicFlagsN r w) s Q ↔
      Q () (s.withFlags ((resultStatus a false false).into s.eflags)) := by
  rw [setLogicFlagsN, ensures_updateFlags, logicFlagsN_eq _ hw₀ hw hr]

theorem ensures_setSubFlags {a b : U32} : Ensures (setSubFlags a b (a - b)) s Q ↔
    Q () (s.withFlags ((diffStatus a b false).into s.eflags)) := by
  rw [setSubFlags, ensures_updateFlags, subFlags_eq]

theorem ensures_setAddFlags {a b : U32} : Ensures (setAddFlags a b (a + b)) s Q ↔
    Q () (s.withFlags ((sumStatus a b false).into s.eflags)) := by
  rw [setAddFlags, ensures_updateFlags, addFlags_eq]

theorem ensures_setLogicFlags {a : U32} : Ensures (setLogicFlags a) s Q ↔
    Q () (s.withFlags ((resultStatus a false false).into s.eflags)) := by
  rw [setLogicFlags, ensures_updateFlags, logicFlags_eq]

/-! With the operands as they are, in 32 bits. -/

theorem ensures_setAddFlagsN_dword {a b : U32} : Ensures (setAddFlagsN a b r 32) s Q ↔
    Q () (s.withFlags ((sumStatus a b false).into s.eflags)) := by
  have h := ensures_setAddFlagsN (s := s) (Q := Q) (a := a) (b := b) (r := r) (by decide) (by decide)
  rwa [setWidth_eq, setWidth_eq] at h

theorem ensures_setADCFlagsN_dword {a b : U32} :
    Ensures (setADCFlagsN a b (carryWord c) r 32) s Q ↔
      Q () (s.withFlags ((sumStatus a b c).into s.eflags)) := by
  have h := ensures_setADCFlagsN (s := s) (Q := Q) (a := a) (b := b) (r := r) (c := c)
    (by decide) (by decide)
  rwa [setWidth_eq, setWidth_eq] at h

end Setters

/-! ## The arms of the byte forms -/

theorem byte_back (v : U8) : (v.setWidth 32).setWidth 8 = v := narrow_back (by decide) v

theorem ensures_setLogicFlags8 {Q : Unit → Machine → Prop} {a : U8} :
    Ensures (setLogicFlagsN (a.setWidth 32) 8) s Q ↔
    Q () (s.withFlags ((resultStatus a false false).into s.eflags)) :=
  ensures_setLogicFlagsN (by decide) (by decide) (byte_back a)

theorem runs_cmpByte : Runs cmpByte 0x38 ⟨.cmp, .byte, .rmReg⟩ t := by
  unfold Runs Executes cmpByte
  simp only [ensures_bind]
  refine ensures_decodeModRM (ensures_readRM8 ?_)
  rw [ensures_byteReg, ensures_setSubFlagsN (by decide) (by decide) (byte_back _)]
  exact (rmReg (by decide)).kept rfl rfl rfl rfl

theorem runs_testByte : Runs testByte 0x84 ⟨.test, .byte, .rmReg⟩ t := by
  unfold Runs Executes testByte
  simp only [ensures_bind]
  refine ensures_decodeModRM (ensures_readRM8 ?_)
  rw [ensures_byteReg, ensures_setLogicFlags8]
  exact (rmReg (by decide)).kept rfl rfl rfl rfl

theorem runs_testALImm : Runs testALImm 0xA8 ⟨.test, .byte, .accImm⟩ t := by
  unfold Runs Executes testALImm
  simp only [ensures_bind]
  refine ensures_fetch8 ?_
  rw [ensures_byteReg, ensures_setLogicFlags8]
  exact accImm.kept rfl rfl ((rhs_accImm _ _ _).trans (immAt_byte _ _)) rfl

theorem runs_cmpALImm : Runs cmpALImm 0x3C ⟨.cmp, .byte, .accImm⟩ t := by
  unfold Runs Executes cmpALImm
  simp only [ensures_bind]
  refine ensures_fetch8 ?_
  rw [ensures_byteReg, ensures_setSubFlagsN (by decide) (by decide) (byte_back _)]
  exact accImm.kept rfl rfl ((rhs_accImm _ _ _).trans (immAt_byte _ _)) rfl

def Shape.toward (toRM : Bool) : Shape := if toRM then .rmReg else .regRm

theorem runs_byteForm {o : AluOp} (ho : o ≠ .mov) (hw : o.writes = true) {toRM : Bool}
    {f : U8 → U8 → U8} {flags : U8 → U8 → CpuM Unit}
    (hf : ∀ a b, f a b = o.apply (carryFlag t.eflags) a b)
    (hflags : ∀ a b (s : Machine) Q,
      Ensures (flags a b) s Q ↔ Q () (s.withFlags ((o.statusSet (carryFlag t.eflags) a b).elim s.eflags
        (·.into s.eflags)))) : Runs (byteForm toRM f flags) op ⟨o, .byte, .toward toRM⟩ t := by
  unfold Runs Executes byteForm
  rw [ensures_bind]
  refine ensures_decodeModRM ?_
  cases toRM with
  | true =>
    simp only [if_true, ensures_bind]
    refine ensures_readRM8 ?_
    rw [ensures_byteReg]
    refine ensures_writeRM8 ?_
    rw [hflags]
    exact (rmReg ho).written hw rfl rfl (hf _ _) rfl
  | false =>
    simp only [Bool.false_eq_true, if_false, ensures_bind, ensures_byteReg]
    refine ensures_readRM8 ?_
    rw [ensures_setByteReg, hflags]
    exact regRm.written hw rfl rfl (hf _ _) rfl

theorem runs_addByte (op : U8) : Runs (addByte op) op ⟨.add, .byte, .toward (op = 0x00)⟩ t :=
  runs_byteForm (by decide) rfl (fun _ _ => rfl) fun _ _ _ _ =>
    ensures_setAddFlagsN (by decide) (by decide)

theorem runs_orByte (op : U8) : Runs (orByte op) op ⟨.or, .byte, .toward (op = 0x08)⟩ t :=
  runs_byteForm (by decide) rfl (fun _ _ => rfl) fun _ _ _ _ =>
    ensures_setLogicFlags8

theorem runs_andByte (op : U8) : Runs (andByte op) op ⟨.and, .byte, .toward (op = 0x20)⟩ t :=
  runs_byteForm (by decide) rfl (fun _ _ => rfl) fun _ _ _ _ =>
    ensures_setLogicFlags8

theorem runs_xorByte : Runs xorByte 0x30 ⟨.xor, .byte, .toward true⟩ t :=
  runs_byteForm (by decide) rfl (fun _ _ => rfl) fun _ _ _ _ =>
    ensures_setLogicFlags8

theorem carryWord_setWidth (hw : w ≤ 32) (c : Bool) : (carryWord c).setWidth w = BitVec.ofNat w c.toNat := by
  cases c with
  | false => exact setWidth_ofNat_of_le hw 0
  | true => exact setWidth_ofNat_of_le hw 1

theorem runs_adcByte (op : U8) : Runs (adcByte op) op ⟨.adc, .byte, .toward (op = 0x10)⟩ t := by
  unfold Runs Executes adcByte
  rw [ensures_bind, ensures_carryIn]
  exact runs_byteForm (by decide) rfl
    (fun a b => congrArg (a + b + ·) (carryWord_setWidth (by decide) _)) fun _ _ _ _ =>
      ensures_setADCFlagsN (by decide) (by decide)

theorem setWidth_sub (hw : w ≤ 32) (a b : U32) : (a - b).setWidth w = a.setWidth w - b.setWidth w := by
  rw [sub_eq_add_neg, setWidth_add _ _ hw, setWidth_neg_of_le hw, ← sub_eq_add_neg]

/-- The difference that the source computes in 32 bits. -/
theorem subBorrow_setWidth (hw : w ≤ 32) (a b : BitVec w) (c : Bool) :
    (a.setWidth 32 - b.setWidth 32 - carryWord c).setWidth w = subBorrow a b c := by
  rw [setWidth_sub hw, setWidth_sub hw, narrow_back hw, narrow_back hw, carryWord_setWidth hw, subBorrow]

theorem addCarry_setWidth (hw : w ≤ 32) (a b : BitVec w) (c : Bool) :
    (a.setWidth 32 + b.setWidth 32 + carryWord c).setWidth w = addCarry a b c := by
  rw [setWidth_add _ _ hw, setWidth_add _ _ hw, narrow_back hw, narrow_back hw,
    carryWord_setWidth hw, addCarry]

theorem runs_sbbRM8 : Runs sbbRM8 0x18 ⟨.sbb, .byte, .rmReg⟩ t := by
  unfold Runs Executes sbbRM8
  simp only [ensures_bind]
  refine ensures_decodeModRM ?_
  rw [ensures_carryIn]
  refine ensures_readRM8 ?_
  rw [ensures_byteReg]
  refine ensures_writeRM8 ?_
  rw [ensures_setSBBFlagsN (by decide) (by decide) (subBorrow_setWidth (by decide) _ _ _)]
  exact (rmReg (by decide)).written rfl rfl rfl (subBorrow_setWidth (by decide) _ _ _) rfl

theorem runs_sbbR8 : Runs sbbR8 0x1A ⟨.sbb, .byte, .regRm⟩ t := by
  unfold Runs Executes sbbR8
  simp only [ensures_bind]
  refine ensures_decodeModRM ?_
  rw [ensures_byteReg]
  refine ensures_readRM8 ?_
  rw [ensures_carryIn, ensures_setByteReg,
    ensures_setSBBFlagsN (by decide) (by decide) (subBorrow_setWidth (by decide) _ _ _)]
  exact regRm.written rfl rfl rfl (subBorrow_setWidth (by decide) _ _ _) rfl

theorem runs_addAccImm (op : U8) :
    Runs (addAccImm op) op ⟨.add, if op = 0x04 then .byte else .dword, .accImm⟩ t := by
  unfold Runs Executes addAccImm
  split
  · simp only [ensures_bind]
    refine ensures_fetch8 ?_
    rw [ensures_byteReg, ensures_setByteReg, ensures_setAddFlagsN (by decide) (by decide)]
    exact accImm.written rfl rfl ((rhs_accImm _ _ _).trans (immAt_byte _ _)) rfl rfl
  simp only [ensures_bind]
  refine ensures_fetch32 ?_
  rw [ensures_getReg, ensures_setReg, ensures_setAddFlagsN_dword]
  exact accImm.written rfl rfl (rhs_accImm _ _ _) rfl rfl

theorem runs_andAccImm : Runs (andAccImm 0x24) 0x24 ⟨.and, .byte, .accImm⟩ t := by
  unfold Runs Executes andAccImm
  rw [if_pos rfl]
  simp only [ensures_bind]
  refine ensures_fetch8 ?_
  rw [ensures_byteReg, ensures_setByteReg, ensures_setLogicFlags8]
  exact accImm.written rfl rfl ((rhs_accImm _ _ _).trans (immAt_byte _ _)) rfl rfl

theorem runs_orAccImm : Runs (orAccImm 0x0C) 0x0C ⟨.or, .byte, .accImm⟩ t := by
  unfold Runs Executes orAccImm
  rw [if_pos rfl]
  simp only [ensures_bind]
  refine ensures_fetch8 ?_
  rw [ensures_byteReg, ensures_setByteReg, ensures_setLogicFlags8]
  exact accImm.written rfl rfl ((rhs_accImm _ _ _).trans (immAt_byte _ _)) rfl rfl

theorem runs_adcAccImm (op : U8) :
    Runs (adcAccImm op) op ⟨.adc, if op = 0x14 then .byte else .dword, .accImm⟩ t := by
  unfold Runs Executes adcAccImm
  rw [ensures_bind, ensures_carryIn]
  split
  · simp only [ensures_bind]
    refine ensures_fetch8 ?_
    rw [ensures_byteReg, ensures_setByteReg, ensures_setADCFlagsN (by decide) (by decide)]
    exact accImm.written rfl rfl ((rhs_accImm _ _ _).trans (immAt_byte _ _))
      (addCarry_setWidth (by decide) _ _ _) rfl
  simp only [ensures_bind]
  refine ensures_fetch32 ?_
  rw [ensures_getReg, ensures_setReg, ensures_setADCFlagsN_dword]
  refine accImm.written rfl rfl (rhs_accImm _ _ _) ?_ rfl
  have h := addCarry_setWidth (Nat.le_refl 32) (t.regs EAX) (immAt .dword t.code 0)
    (carryFlag t.eflags)
  exact h

/-- The operations of the 80 group; ADC and SBB are not among those that the source has. -/
theorem ensures_aluByte {a b : U8} {Q : U8 → Machine → Prop}
    (h : Q ((ofDigit digit).apply (carryFlag s.eflags) a b)
      (s.withFlags ((ofDigit digit).flagsSet s.eflags a b))) : Ensures (aluByte start digit a b) s Q := by
  unfold aluByte
  by_cases h0 : digit = 0
  · subst h0
    rw [if_pos rfl, ensures_bind, ensures_setAddFlagsN (by decide) (by decide)]
    exact ensures_pure.mpr h
  rw [if_neg h0]
  by_cases h1 : digit = 1
  · subst h1
    rw [if_pos rfl, ensures_bind, ensures_setLogicFlags8]
    exact ensures_pure.mpr h
  rw [if_neg h1]
  by_cases h4 : digit = 4
  · subst h4
    rw [if_pos rfl, ensures_bind, ensures_setLogicFlags8]
    exact ensures_pure.mpr h
  rw [if_neg h4]
  by_cases h57 : digit = 5 ∨ digit = 7
  · rw [if_pos h57, ensures_bind, ensures_setSubFlagsN (by decide) (by decide) (byte_back _)]
    rcases h57 with rfl | rfl
    · exact ensures_pure.mpr h
    · exact ensures_pure.mpr h
  rw [if_neg h57]
  by_cases h6 : digit = 6
  · subst h6
    rw [if_pos rfl, ensures_bind, ensures_setLogicFlags8]
    exact ensures_pure.mpr h
  rw [if_neg h6]
  exact ensures_throw.mpr trivial

theorem ofDigit_ne_mov (digit : Reg) : ofDigit digit ≠ .mov := by
  revert digit
  decide

theorem ofDigit_writes (digit : Reg) : (ofDigit digit).writes = decide (digit ≠ 7) := by
  revert digit
  decide

theorem runs_group80 (start : U32) :
    Runs (group80 start) 0x80 ⟨.ofDigit (digitAt t.code), .byte, .rmImm⟩ t := by
  unfold Runs Executes group80
  simp only [ensures_bind]
  refine ensures_decodeModRM (ensures_fetch8 (ensures_readRM8 (ensures_aluByte ?_)))
  rw [fetched_fetched, fetched_code]
  have hready : Ready ⟨.ofDigit (digitAt t.code), .byte, .rmImm⟩ 0x80 t _ :=
    rmImm (ofDigit_ne_mov (digitAt t.code))
  have hrhs := (rhs_rmImm (.ofDigit (digitAt t.code)) .byte t.view).trans (immAt_byte _ _)
  have hw := ofDigit_writes (digitAt t.code)
  unfold doIf
  by_cases h7 : digitAt t.code = 7
  · rw [decide_eq_false (not_not.mpr h7)] at hw
    rw [if_neg (by simpa [modRMAt] using h7)]
    exact ensures_pure.mpr (hready.kept hw rfl hrhs rfl)
  · rw [decide_eq_true h7] at hw
    rw [if_pos (by simpa [modRMAt] using h7)]
    exact ensures_writeRM8 (hready.written hw rfl hrhs rfl rfl)

/-! MOV -/

theorem runs_movByte (op : U8) : Runs (movByte op) op ⟨.mov, .byte, .toward (op = 0x88)⟩ t := by
  unfold Runs Executes movByte
  rw [ensures_bind]
  refine ensures_decodeModRM ?_
  by_cases h : op = 0x88
  · rw [if_pos h, decide_eq_true h, ensures_bind, ensures_byteReg]
    exact ensures_writeRM8 (rmReg_mov.moved rfl rfl)
  rw [if_neg h, decide_eq_false h, ensures_bind]
  refine ensures_readRM8 ?_
  rw [ensures_setByteReg]
  exact regRm.moved rfl rfl

theorem runs_movR8Imm8 (op : U8) : Runs (movR8Imm8 op) op ⟨.mov, .byte, .regImm⟩ t := by
  unfold Runs Executes movR8Imm8
  rw [ensures_bind]
  refine ensures_fetch8 ?_
  rw [ensures_setByteReg]
  exact regImm.moved ((rhs_regImm _ _ _).trans (immAt_byte _ _)) rfl

theorem runs_movRM8Imm8 (start : U32) : Runs (movRM8Imm8 start) 0xC6 ⟨.mov, .byte, .rmImm⟩ t := by
  unfold Runs Executes movRM8Imm8
  simp only [ensures_bind]
  refine ensures_decodeModRM ?_
  rw [ensures_require]
  intro _
  refine ensures_fetch8 ?_
  rw [fetched_fetched, fetched_code]
  exact ensures_writeRM8 (rmImm_mov.moved ((rhs_rmImm _ _ _).trans (immAt_byte _ _)) rfl)

/-! ## Absolute addresses -/

theorem runs_movMoffs_load (op : U8) (h : op = 0xA0 ∨ op = 0xA1) :
    Runs (movMoffs op) op ⟨.mov, if op = 0xA0 then .byte else .dword, .accMoffs⟩ t := by
  unfold Runs Executes movMoffs
  rw [ensures_bind]
  refine ensures_fetch32 ?_
  rw [ensures_bind, ensures_getSegmentBase]
  rcases h with rfl | rfl
  · rw [if_pos rfl, ensures_bind]
    refine ensures_read8 ?_
    rw [ensures_setByteReg]
    exact accMoffs.moved rfl rfl
  rw [if_neg (by decide), if_pos rfl, ensures_bind]
  refine ensures_read32 ?_
  rw [ensures_setReg]
  exact accMoffs.moved rfl rfl

theorem runs_movMoffs_store (op : U8) (h : op = 0xA2 ∨ op = 0xA3) :
    Runs (movMoffs op) op ⟨.mov, if op = 0xA2 then .byte else .dword, .moffsAcc⟩ t := by
  unfold Runs Executes movMoffs
  simp only [ensures_bind]
  refine ensures_fetch32 ?_
  rw [ensures_getSegmentBase]
  rcases h with rfl | rfl
  · exact ensures_write (by decide) (moffsAcc.moved rfl rfl)
  · exact ensures_write (by decide) (moffsAcc.moved rfl rfl)

/-! ## The arms of the word forms that ask for the prefix -/

section Prefixed
variable {m : ModRM}

theorem bits_ofPrefix (operand16 : Bool) :
    (if operand16 = true then 16 else 32) = (ofPrefix operand16).bits := by
  cases operand16 <;> rfl

theorem ensures_readRMv (hcur : m.Current s.regs)
    (h : Q (((m.operand s.segmentBase).value (.ofPrefix operand16) s.regs s.mem.data).setWidth 32)
      (s.loaded (.ofPrefix operand16) (m.operand s.segmentBase))) : Ensures (readRMv operand16 m) s Q := by
  unfold readRMv
  cases operand16 with
  | true =>
    rw [if_pos rfl, ensures_bind]
    exact ensures_readRM16 (ensures_pure.mpr h)
  | false =>
    refine ensures_readRM hcur ?_
    have hv := setWidth_eq ((m.operand s.segmentBase).value .dword s.regs s.mem.data)
    exact h

theorem ensures_writeRMv {Q : Unit → Machine → Prop}
    (h : Q () (s.stored (.ofPrefix operand16) (r.setWidth _) (m.operand s.segmentBase))) :
    Ensures (writeRMv operand16 m r) s Q := by
  unfold writeRMv
  cases operand16 with
  | true =>
    exact ensures_writeRM16 h
  | false =>
    refine ensures_writeRM ?_
    exact h

theorem ensures_getRegV {r : Reg} :
    Ensures (getRegV operand16 r) s Q ↔ Q ((regValue s.regs r (.ofPrefix operand16)).setWidth 32) s := by
  unfold getRegV
  rw [ensures_bind, ensures_getReg, ensures_pure]
  cases operand16 with
  | true => rfl
  | false =>
    exact iff_of_eq (congrArg (Q · s) (setWidth_eq (s.regs r)).symm)

theorem ensures_setRegV {r : Reg} {v : U32} {Q : Unit → Machine → Prop} :
    Ensures (setRegV operand16 r v) s Q ↔
      Q () (s.withRegs (putRegValue s.regs r (.ofPrefix operand16) (v.setWidth _))) := by
  unfold setRegV
  cases operand16 with
  | true =>
    rw [if_pos rfl, ensures_setReg16]
    rfl
  | false =>
    rw [if_neg Bool.false_ne_true, ensures_setReg]
    exact iff_of_eq (congrArg (fun x => Q () (s.withRegs (putReg s.regs r x))) (setWidth_eq v).symm)

theorem runs_sbbWord (op : U8) :
    Runs (sbbWord op operand16) op ⟨.sbb, .ofPrefix operand16, .toward (op ≠ 0x1B)⟩ t := by
  have hbits := (ofPrefix operand16).bits_le
  unfold Runs Executes sbbWord
  rw [ensures_bind]
  refine ensures_decodeModRM ?_
  rw [ensures_bind, ensures_carryIn]
  rw [bits_ofPrefix]
  by_cases h : op = 0x1B
  · rw [if_pos h, decide_eq_false (not_not.mpr h)]
    simp only [ensures_bind]
    rw [ensures_getRegV]
    refine ensures_readRMv (modRMAt_current _ _) ?_
    rw [ensures_setRegV, ensures_setSBBFlagsN (bits_pos _) hbits (subBorrow_setWidth hbits _ _ _)]
    exact regRm.written rfl rfl rfl (subBorrow_setWidth hbits _ _ _) rfl
  rw [if_neg h, decide_eq_true h]
  simp only [ensures_bind]
  refine ensures_readRMv (modRMAt_current _ _) ?_
  rw [ensures_getRegV]
  refine ensures_writeRMv ?_
  rw [ensures_setSBBFlagsN (bits_pos _) hbits (subBorrow_setWidth hbits _ _ _)]
  exact (rmReg (by decide)).written rfl rfl rfl (subBorrow_setWidth hbits _ _ _) rfl

section Setters
variable {a b : BitVec (ofPrefix operand16).bits} {Q : Unit → Machine → Prop}

theorem ensures_setAddFlagsV (hr : r = a.setWidth 32 + b.setWidth 32) :
    Ensures (setAddFlagsV operand16 (a.setWidth 32) (b.setWidth 32) r) s Q ↔
      Q () (s.withFlags ((sumStatus a b false).into s.eflags)) := by
  unfold setAddFlagsV
  cases operand16 with
  | true => exact ensures_setAddFlagsN (w := 16) (r := r) (by decide) (by decide)
  | false =>
    have ha : a.setWidth 32 = a := setWidth_eq a
    have hb : b.setWidth 32 = b := setWidth_eq b
    rw [if_neg Bool.false_ne_true, hr, ensures_setAddFlags, ha, hb]

theorem ensures_setSubFlagsV (hr : r = a.setWidth 32 - b.setWidth 32) :
    Ensures (setSubFlagsV operand16 (a.setWidth 32) (b.setWidth 32) r) s Q ↔
      Q () (s.withFlags ((diffStatus a b false).into s.eflags)) := by
  unfold setSubFlagsV
  cases operand16 with
  | true =>
    refine ensures_setSubFlagsN (w := 16) (by decide) (by decide) ?_
    rw [hr, setWidth_sub (by decide), narrow_back (by decide), narrow_back (by decide)]
  | false =>
    have ha : a.setWidth 32 = a := setWidth_eq a
    have hb : b.setWidth 32 = b := setWidth_eq b
    rw [if_neg Bool.false_ne_true, hr, ensures_setSubFlags, ha, hb]

theorem ensures_setLogicFlagsV (hr : r.setWidth (ofPrefix operand16).bits = a) :
    Ensures (setLogicFlagsV operand16 r) s Q ↔
      Q () (s.withFlags ((resultStatus a false false).into s.eflags)) := by
  unfold setLogicFlagsV
  cases operand16 with
  | true => exact ensures_setLogicFlagsN (w := 16) (by decide) (by decide) hr
  | false =>
    have hr' : r = a := (setWidth_eq r).symm.trans hr
    rw [if_neg Bool.false_ne_true, ensures_setLogicFlags, hr']

end Setters

theorem digit_five_or_seven : ∀ digit : Reg, digit ≠ 0 → digit ≠ 1 → digit ≠ 2 → digit ≠ 3 →
    digit ≠ 4 → digit ≠ 6 → digit = 5 ∨ digit = 7 := by
  decide

theorem ensures_aluWord {a b : BitVec (ofPrefix operand16).bits}
    (h : ∀ r : U32, r.setWidth _ = (ofDigit digit).apply (carryFlag s.eflags) a b →
      Q r (s.withFlags ((ofDigit digit).flagsSet s.eflags a b))) :
    Ensures (aluWord operand16 digit (a.setWidth 32) (b.setWidth 32)) s Q := by
  have hpos := (ofPrefix operand16).bits_pos
  have hle := (ofPrefix operand16).bits_le
  have hadd : (a.setWidth 32 + b.setWidth 32).setWidth (ofPrefix operand16).bits = a + b := by
    rw [setWidth_add _ _ hle, narrow_back hle, narrow_back hle]
  have hor : (a.setWidth 32 ||| b.setWidth 32).setWidth (ofPrefix operand16).bits = a ||| b := by
    rw [setWidth_or, narrow_back hle, narrow_back hle]
  have hand : (a.setWidth 32 &&& b.setWidth 32).setWidth (ofPrefix operand16).bits = a &&& b := by
    rw [setWidth_and, narrow_back hle, narrow_back hle]
  have hxor : (a.setWidth 32 ^^^ b.setWidth 32).setWidth (ofPrefix operand16).bits = a ^^^ b := by
    rw [setWidth_xor, narrow_back hle, narrow_back hle]
  have hsub : (a.setWidth 32 - b.setWidth 32).setWidth (ofPrefix operand16).bits = a - b := by
    rw [setWidth_sub hle, narrow_back hle, narrow_back hle]
  unfold aluWord
  rw [bits_ofPrefix]
  by_cases h0 : digit = 0
  · subst h0
    rw [if_pos rfl, ensures_bind, ensures_setAddFlagsV rfl]
    exact ensures_pure.mpr (h _ hadd)
  rw [if_neg h0]
  by_cases h1 : digit = 1
  · subst h1
    rw [if_pos rfl, ensures_bind, ensures_setLogicFlagsV hor]
    exact ensures_pure.mpr (h _ hor)
  rw [if_neg h1]
  by_cases h2 : digit = 2
  · subst h2
    rw [if_pos rfl, ensures_bind, ensures_carryIn, ensures_bind, ensures_setADCFlagsN hpos hle]
    exact ensures_pure.mpr (h _ (addCarry_setWidth hle _ _ _))
  rw [if_neg h2]
  by_cases h3 : digit = 3
  · subst h3
    rw [if_pos rfl, ensures_bind, ensures_carryIn, ensures_bind,
      ensures_setSBBFlagsN hpos hle (subBorrow_setWidth hle _ _ _)]
    exact ensures_pure.mpr (h _ (subBorrow_setWidth hle _ _ _))
  rw [if_neg h3]
  by_cases h4 : digit = 4
  · subst h4
    rw [if_pos rfl, ensures_bind, ensures_setLogicFlagsV hand]
    exact ensures_pure.mpr (h _ hand)
  rw [if_neg h4]
  by_cases h6 : digit = 6
  · subst h6
    rw [if_pos rfl, ensures_bind, ensures_setLogicFlagsV hxor]
    exact ensures_pure.mpr (h _ hxor)
  -- SUB and CMP share the last arm
  rw [if_neg h6, ensures_bind, ensures_setSubFlagsV rfl]
  rcases digit_five_or_seven digit h0 h1 h2 h3 h4 h6 with rfl | rfl
  · exact ensures_pure.mpr (h _ hsub)
  · exact ensures_pure.mpr (h _ hsub)

/-- The shape of the 81 and 83 groups. -/
def groupShape (op : U8) : Shape := if op = 0x81 then .rmImm else .rmImm8

/-- A byte sign-extended to a half word or to a word: the low bits are the same. -/
theorem setWidth_signExtend (v : U8) : (v.signExtend 32).setWidth 16 = v.signExtend 16 := by
  revert v
  decide +kernel

theorem ensures_aluImm (himm : op = 0x81 → Q ((immAt (.ofPrefix operand16) s.code 0).setWidth 32)
      (s.fetched (ofPrefix operand16).bytes))
    (hbyte : op ≠ 0x81 →
      Q ((((s.code 0).signExtend 32).setWidth (ofPrefix operand16).bits).setWidth 32)
        (s.fetched 1)) : Ensures (aluImm op operand16) s Q := by
  unfold aluImm
  cases operand16 with
  | true =>
    rw [if_pos rfl]
    by_cases h : op = 0x81
    · rw [if_pos h, ensures_bind]
      exact ensures_fetch16 (ensures_pure.mpr (himm h))
    rw [if_neg h, ensures_bind]
    refine ensures_fetch8 (ensures_pure.mpr ?_)
    have := hbyte h
    rw [setWidth_signExtend] at this
    exact this
  | false =>
    rw [if_neg Bool.false_ne_true]
    by_cases h : op = 0x81
    · rw [if_pos h]
      refine ensures_fetch32 ?_
      have := himm h
      exact this
    rw [if_neg h, ensures_bind]
    refine ensures_fetch8 (ensures_pure.mpr ?_)
    have := hbyte h
    exact this

theorem ensures_group81 {n : Nat}
    {b : BitVec (ofPrefix operand16).bits} (hdst : sh.dst op t.view = rm t.view)
    (hready : Ready ⟨.ofDigit (digitAt t.code), .ofPrefix operand16, sh⟩ op t
      ((t.fetched n).loaded (.ofPrefix operand16) (rm t.view)))
    (hrhs : rhs ⟨.ofDigit (digitAt t.code), .ofPrefix operand16, sh⟩ t.view = b) :
    Ensures (do
      let lhs ← readRMv operand16 (modRMAt t.regs t.code)
      let result ← aluWord operand16 (digitAt t.code) lhs (b.setWidth 32)
      doIf (digitAt t.code ≠ 7) (writeRMv operand16 (modRMAt t.regs t.code) result)) (t.fetched n)
      fun _ u => Form.Done ⟨.ofDigit (digitAt t.code), .ofPrefix operand16, sh⟩ op t u := by
  have hw := ofDigit_writes (digitAt t.code)
  have hlhs : lhs ⟨.ofDigit (digitAt t.code), .ofPrefix operand16, sh⟩ op t.view =
      (rm t.view).value (.ofPrefix operand16) t.regs t.mem.data := by
    rw [← hdst]
    rfl
  simp only [ensures_bind]
  refine ensures_readRMv (modRMAt_current _ _) (ensures_aluWord fun r hr => ?_)
  unfold doIf
  by_cases h7 : digitAt t.code = 7
  · rw [decide_eq_false (not_not.mpr h7)] at hw
    rw [decide_eq_false (not_not.mpr h7), if_neg Bool.false_ne_true]
    exact ensures_pure.mpr (hready.kept hw hlhs hrhs rfl)
  rw [decide_eq_true h7] at hw
  rw [decide_eq_true h7, if_pos rfl]
  refine ensures_writeRMv ?_
  have hdone := hready.written hw hlhs hrhs hr rfl
  rw [hdst] at hdone
  exact hdone

theorem runs_group81 (op : U8) : Runs (group81 op operand16) op
    ⟨.ofDigit (digitAt t.code), .ofPrefix operand16, groupShape op⟩ t := by
  have hne := ofDigit_ne_mov (digitAt t.code)
  unfold Runs Executes group81 groupShape
  rw [ensures_bind]
  refine ensures_decodeModRM ?_
  rw [ensures_bind]
  refine ensures_aluImm (fun h => ?_) (fun h => ?_)
  · rw [if_pos h, immAt_fetched, fetched_fetched]
    exact ensures_group81 rfl (rmImm hne) (rhs_rmImm _ _ _)
  · rw [if_neg h, fetched_code, fetched_fetched]
    exact ensures_group81 rfl (rmImm8 hne) (rhs_rmImm8 _ _ _)

def AluOp.ofAccImm (op : U8) : AluOp := if op = 0x0D then .or else if op = 0x25 then .and else .xor

theorem ofAccImm_status (op : U8) (c : Bool) (a b : BitVec w) :
    (ofAccImm op).writes = true ∧ (ofAccImm op).apply c a b = logicOf op a b ∧
      (ofAccImm op).statusSet c a b = some (resultStatus (logicOf op a b) false false) := by
  unfold ofAccImm logicOf
  split
  · exact ⟨rfl, rfl, rfl⟩
  · split
    · exact ⟨rfl, rfl, rfl⟩
    · exact ⟨rfl, rfl, rfl⟩

theorem ofAccImm_flags (op : U8) (f : U32) (a b : BitVec w) :
    (resultStatus (logicOf op a b) false false).into f = (ofAccImm op).flagsSet f a b := by
  rw [flagsSet, (ofAccImm_status op _ a b).2.2]
  rfl

theorem runs_logicAccImm (op : U8) :
    Runs (logicAccImm op operand16) op ⟨.ofAccImm op, .ofPrefix operand16, .accImm⟩ t := by
  unfold Runs Executes logicAccImm
  cases operand16 with
  | true =>
    rw [if_pos rfl, ensures_bind]
    refine ensures_fetch16 ?_
    rw [ensures_bind, ensures_getReg, ensures_bind, ensures_setReg16,
      ensures_setLogicFlagsN (by decide) (by decide) (narrow_back (by decide) _)]
    obtain ⟨hw, happ, -⟩ := ofAccImm_status op (carryFlag t.eflags)
      ((t.regs EAX).setWidth 16) (immAt .word t.code 0)
    exact accImm.written hw rfl (rhs_accImm _ _ _) happ.symm (ofAccImm_flags _ _ _ _)
  | false =>
    rw [if_neg Bool.false_ne_true, ensures_bind]
    refine ensures_fetch32 ?_
    rw [ensures_bind, ensures_getReg, ensures_bind, ensures_setReg, ensures_setLogicFlags]
    obtain ⟨hw, happ, -⟩ := ofAccImm_status op (carryFlag t.eflags)
      (t.regs EAX) (immAt .dword t.code 0)
    exact accImm.written hw rfl (rhs_accImm _ _ _) happ.symm (ofAccImm_flags _ _ _ _)

end Prefixed

/-! ## The arm that starts with a ModRM byte -/

theorem runs_movRM (hop : op = 0x89 ∨ op = 0x8B) :
    Runs (wordForms op start operand16) op ⟨.mov, .ofPrefix operand16, .toward (op = 0x89)⟩ t := by
  unfold Runs Executes wordForms
  rw [ensures_bind]
  refine ensures_decodeModRM ?_
  rw [if_neg (by rcases hop with rfl | rfl <;> decide),
    if_neg (by rcases hop with rfl | rfl <;> decide), if_pos hop]
  unfold movRM
  cases operand16 with
  | true =>
    rw [if_pos rfl]
    by_cases h : op = 0x89
    · rw [if_pos h, decide_eq_true h, ensures_bind, ensures_getReg]
      exact ensures_writeRM16 (rmReg_mov.moved rfl rfl)
    rw [if_neg h, decide_eq_false h, ensures_bind]
    refine ensures_readRM16 ?_
    rw [ensures_setReg16]
    exact regRm.moved rfl rfl
  | false =>
    rw [if_neg Bool.false_ne_true]
    by_cases h : op = 0x89
    · rw [if_pos h, decide_eq_true h, ensures_bind, ensures_getReg]
      exact ensures_writeRM (rmReg_mov.moved rfl rfl)
    rw [if_neg h, decide_eq_false h, ensures_bind]
    refine ensures_readRM (modRMAt_current _ _) ?_
    rw [ensures_setReg]
    exact regRm.moved rfl rfl

theorem runs_movRMImm : Runs (wordForms 0xC7 start operand16) 0xC7 ⟨.mov, .ofPrefix operand16, .rmImm⟩ t := by
  unfold Runs Executes wordForms movRMImm
  rw [ensures_bind]
  refine ensures_decodeModRM ?_
  rw [if_pos rfl, ensures_bind, ensures_require]
  intro _
  cases operand16 with
  | true =>
    rw [if_pos rfl, ensures_bind]
    refine ensures_fetch16 (ensures_writeRM16 ?_)
    rw [immAt_fetched, fetched_fetched]
    exact rmImm_mov.moved (rhs_rmImm _ _ _) rfl
  | false =>
    rw [if_neg Bool.false_ne_true, ensures_bind]
    refine ensures_fetch32 (ensures_writeRM ?_)
    rw [immAt_fetched, fetched_fetched]
    exact rmImm_mov.moved (rhs_rmImm _ _ _) rfl

def AluOp.ofWordForm (op : U8) : AluOp :=
  if op = 0x01 ∨ op = 0x03 then .add
  else if op = 0x29 ∨ op = 0x2B then .sub
  else if op = 0x39 ∨ op = 0x3B then .cmp
  else .xor

/-- Where the register is the destination the source has the operands of a sum in the other
order. -/
theorem runs_wordForms
    (hop : op = 0x01 ∨ op = 0x03 ∨ op = 0x29 ∨ op = 0x2B ∨ op = 0x31 ∨ op = 0x33 ∨ op = 0x39 ∨
      op = 0x3B) :
    Runs (wordForms op start operand16) op
      ⟨.ofWordForm op, .dword, .toward (op = 0x01 ∨ op = 0x29 ∨ op = 0x31 ∨ op = 0x39)⟩ t := by
  have hhead : Runs (do
      let m ← decodeModRM
      let rhs ← getReg m.reg
      let lhs ← readRM m
      arithWord op m lhs rhs) op
      ⟨.ofWordForm op, .dword, .toward (op = 0x01 ∨ op = 0x29 ∨ op = 0x31 ∨ op = 0x39)⟩ t := by
    unfold Runs Executes
    rw [ensures_bind]
    refine ensures_decodeModRM ?_
    rw [ensures_bind, ensures_getReg, ensures_bind]
    refine ensures_readRM (modRMAt_current _ _) ?_
    unfold arithWord doIf
    rcases hop with rfl | rfl | rfl | rfl | rfl | rfl | rfl | rfl
    · rw [if_pos (by decide), ensures_bind, ensures_setAddFlags, if_pos rfl]
      exact ensures_writeRM ((rmReg (by decide)).written rfl rfl rfl rfl rfl)
    · rw [if_pos (by decide), ensures_bind, ensures_setAddFlags, if_neg (by decide), ensures_setReg,
        sumStatus_comm, BitVec.add_comm]
      exact regRm.written rfl rfl rfl rfl rfl
    · rw [if_neg (by decide), if_pos (by decide), ensures_bind, ensures_setSubFlags,
        if_pos (by decide)]
      exact ensures_writeRM ((rmReg (by decide)).written rfl rfl rfl rfl rfl)
    · rw [if_neg (by decide), if_neg (by decide), if_pos (by decide), ensures_bind,
        ensures_setSubFlags, if_pos (by decide), ensures_setReg]
      exact regRm.written rfl rfl rfl rfl rfl
    · rw [if_neg (by decide), if_neg (by decide), if_neg (by decide), ensures_bind,
        ensures_setLogicFlags, ensures_bind, ensures_updateFlags, if_pos rfl]
      refine ensures_writeRM ?_
      rw [withFlags_eflags, into_again]
      exact (rmReg (by decide)).written rfl rfl rfl rfl rfl
    · rw [if_neg (by decide), if_neg (by decide), if_neg (by decide), ensures_bind,
        ensures_setLogicFlags, ensures_bind, ensures_updateFlags, if_neg (by decide), ensures_setReg,
        withFlags_eflags, into_again, BitVec.xor_comm]
      exact regRm.written rfl rfl rfl rfl rfl
    · rw [if_neg (by decide), if_pos (by decide), ensures_bind, ensures_setSubFlags,
        if_neg (by decide)]
      exact ensures_pure.mpr ((rmReg (by decide)).kept rfl rfl rfl rfl)
    · rw [if_neg (by decide), if_neg (by decide), if_pos (by decide), ensures_bind,
        ensures_setSubFlags, if_neg (by decide)]
      exact ensures_pure.mpr (regRm.kept rfl rfl rfl rfl)
  rcases hop with rfl | rfl | rfl | rfl | rfl | rfl | rfl | rfl <;> exact hhead

/-- The operation of an opcode of `logicWord`. -/
def AluOp.ofLogicWord (op : U8) : AluOp :=
  if op = 0x2A then .sub else if op = 0x09 ∨ op = 0x0B then .or else .and

/-- OR and AND of words.  2A, which is SUB r8, r/m8 by the manual, is carried out on words. -/
theorem runs_logicWord (hop : op = 0x09 ∨ op = 0x0B ∨ op = 0x21 ∨ op = 0x23 ∨ op = 0x2A) :
    Runs (logicWord op) op ⟨.ofLogicWord op, .dword, .toward (op = 0x09 ∨ op = 0x21)⟩ t := by
  unfold Runs Executes logicWord
  rw [ensures_bind]
  refine ensures_decodeModRM ?_
  rw [if_neg (by rcases hop with rfl | rfl | rfl | rfl | rfl <;> decide), ensures_bind]
  refine ensures_readRM (modRMAt_current _ _) ?_
  rw [ensures_bind, ensures_getReg]
  rcases hop with rfl | rfl | rfl | rfl | rfl
  · rw [if_neg (by decide), if_pos (by decide), ensures_bind, ensures_setLogicFlags,
      if_neg (by decide)]
    exact ensures_writeRM ((rmReg (by decide)).written rfl rfl rfl rfl rfl)
  · rw [if_neg (by decide), if_pos (by decide), ensures_bind, ensures_setLogicFlags,
      if_pos (by decide), ensures_setReg, BitVec.or_comm]
    exact regRm.written rfl rfl rfl rfl rfl
  · rw [if_neg (by decide), if_neg (by decide), ensures_bind, ensures_setLogicFlags,
      if_neg (by decide)]
    exact ensures_writeRM ((rmReg (by decide)).written rfl rfl rfl rfl rfl)
  · rw [if_neg (by decide), if_neg (by decide), ensures_bind, ensures_setLogicFlags,
      if_pos (by decide), ensures_setReg, BitVec.and_comm]
    exact regRm.written rfl rfl rfl rfl rfl
  · rw [if_pos rfl, ensures_bind, ensures_setSubFlags, ensures_setReg]
    exact regRm.written rfl rfl rfl rfl rfl

theorem runs_cmpR8 : Runs (logicWord 0x3A) 0x3A ⟨.cmp, .byte, .regRm⟩ t := by
  unfold Runs Executes logicWord cmpR8
  rw [ensures_bind]
  refine ensures_decodeModRM ?_
  rw [if_pos rfl, ensures_bind]
  refine ensures_readRM8 ?_
  rw [ensures_bind, ensures_byteReg, ensures_setSubFlagsN (by decide) (by decide) (byte_back _)]
  exact regRm.kept rfl rfl rfl rfl

theorem runs_adcWord (op : U8) : Runs (adcWord op) op ⟨.adc, .dword, .toward (op = 0x11)⟩ t := by
  have hsum : ∀ a b : U32, a + b + carryWord (carryFlag t.eflags) =
      addCarry a b (carryFlag t.eflags) := by
    intro a b
    have h := addCarry_setWidth (Nat.le_refl 32) a b (carryFlag t.eflags)
    exact h
  unfold Runs Executes adcWord
  rw [ensures_bind]
  refine ensures_decodeModRM ?_
  rw [ensures_bind, ensures_carryIn]
  by_cases h : op = 0x11
  · rw [if_pos h, decide_eq_true h, ensures_bind]
    refine ensures_readRM (modRMAt_current _ _) ?_
    rw [ensures_bind, ensures_getReg, ensures_bind]
    refine ensures_writeRM ?_
    rw [ensures_setADCFlagsN_dword]
    exact (rmReg (by decide)).written rfl rfl rfl (hsum _ _) rfl
  · rw [if_neg h, decide_eq_false h, ensures_bind, ensures_getReg, ensures_bind]
    refine ensures_readRM (modRMAt_current _ _) ?_
    rw [ensures_bind, ensures_setReg, ensures_setADCFlagsN_dword]
    exact regRm.written rfl rfl rfl (hsum _ _) rfl

theorem runs_testWord : Runs testWord 0x85 ⟨.test, .dword, .rmReg⟩ t := by
  unfold Runs Executes testWord
  simp only [ensures_bind]
  refine ensures_decodeModRM ?_
  refine ensures_readRM (modRMAt_current _ _) ?_
  rw [ensures_getReg, ensures_setLogicFlags]
  exact (rmReg (by decide)).kept rfl rfl rfl rfl

/-! ## The accumulator and an immediate word -/

theorem runs_testEAXImm : Runs testEAXImm 0xA9 ⟨.test, .dword, .accImm⟩ t := by
  unfold Runs Executes testEAXImm
  simp only [ensures_bind]
  refine ensures_fetch32 ?_
  rw [ensures_getReg, ensures_setLogicFlags]
  exact accImm.kept rfl rfl (rhs_accImm _ _ _) rfl

theorem runs_subEAXImm : Runs subEAXImm 0x2D ⟨.sub, .dword, .accImm⟩ t := by
  unfold Runs Executes subEAXImm
  simp only [ensures_bind]
  refine ensures_fetch32 ?_
  rw [ensures_getReg, ensures_setReg, ensures_setSubFlags]
  exact accImm.written rfl rfl (rhs_accImm _ _ _) rfl rfl

theorem runs_cmpEAXImm : Runs cmpEAXImm 0x3D ⟨.cmp, .dword, .accImm⟩ t := by
  unfold Runs Executes cmpEAXImm
  simp only [ensures_bind]
  refine ensures_fetch32 ?_
  rw [ensures_getReg, ensures_setSubFlags]
  exact accImm.kept rfl rfl (rhs_accImm _ _ _) rfl

theorem runs_movR32Imm32 (op : U8) : Runs (movR32Imm32 op) op ⟨.mov, .dword, .regImm⟩ t := by
  unfold Runs Executes movR32Imm32
  rw [ensures_bind]
  refine ensures_fetch32 ?_
  rw [ensures_setReg]
  exact regImm.moved (rhs_regImm _ _ _) rfl

/-! ## TEST in the groups F6 and F7 -/

theorem runs_testImm_byte (hdigit : digitAt t.code = 0) :
    Runs (groupF6F7 0xF6 start operand16) 0xF6 ⟨.test, .byte, .rmImm⟩ t := by
  unfold Runs Executes groupF6F7
  rw [ensures_bind]
  refine ensures_decodeModRM ?_
  rw [if_neg (by simp), if_pos rfl, ensures_bind]
  refine ensures_readRM8 ?_
  unfold unaryGroup testImm
  rw [if_pos (show (modRMAt t.regs t.code).reg = 0 from hdigit), if_pos rfl, ensures_bind]
  refine ensures_fetch8 ?_
  have hcode : (((t.fetched (modRMLength t.code)).loaded .byte (rm t.view)).code 0) =
      t.code (modRMLength t.code) := t.fetched_code _ 0
  rw [ensures_setLogicFlagsN (by decide) (by decide)
    ((setWidth_and ..).trans (congrArg₂ (· &&& ·) (byte_back _) (byte_back _)))]
  refine (rmImm_late (by decide)).kept rfl rfl
    ((rhs_rmImm _ _ _).trans ((immAt_byte _ _).trans hcode.symm)) rfl

theorem runs_testImm_word (hdigit : digitAt t.code = 0) :
    Runs (groupF6F7 0xF7 start operand16) 0xF7 ⟨.test, .ofPrefix operand16, .rmImm⟩ t := by
  unfold Runs Executes groupF6F7
  rw [ensures_bind]
  refine ensures_decodeModRM ?_
  cases operand16 with
  | true =>
    rw [if_pos ⟨rfl, rfl⟩]
    unfold test16
    rw [ensures_bind, ensures_require]
    intro _
    rw [ensures_bind]
    refine ensures_readRM16 ?_
    rw [ensures_bind]
    refine ensures_fetch16 ?_
    rw [ensures_setLogicFlagsN (by decide) (by decide) (narrow_back (by decide) _)]
    exact (rmImm_late (by decide)).kept rfl rfl
      ((rhs_rmImm _ _ _).trans (immAt_fetched .word _ 0).symm) rfl
  | false =>
    rw [if_neg (by simp), if_neg (by decide), ensures_bind]
    refine ensures_readRM (modRMAt_current _ _) ?_
    unfold unaryGroup testImm
    rw [if_pos (show (modRMAt t.regs t.code).reg = 0 from hdigit), if_neg Bool.false_ne_true, ensures_bind]
    refine ensures_fetch32 ?_
    rw [ensures_setLogicFlags]
    exact (rmImm_late (by decide)).kept rfl rfl
      ((rhs_rmImm _ _ _).trans (immAt_fetched .dword _ 0).symm) rfl

/-! ## The table -/

/-- What an opcode stands for, in the width `v` where the arm asks for the prefix. -/
def formTable (v : Width) : List (U8 × Form) :=
  [(0x00, ⟨.add, .byte, .rmReg⟩), (0x01, ⟨.add, .dword, .rmReg⟩), (0x02, ⟨.add, .byte, .regRm⟩),
    (0x03, ⟨.add, .dword, .regRm⟩), (0x04, ⟨.add, .byte, .accImm⟩), (0x05, ⟨.add, .dword, .accImm⟩),
    (0x08, ⟨.or, .byte, .rmReg⟩), (0x09, ⟨.or, .dword, .rmReg⟩), (0x0A, ⟨.or, .byte, .regRm⟩),
    (0x0B, ⟨.or, .dword, .regRm⟩), (0x0C, ⟨.or, .byte, .accImm⟩), (0x0D, ⟨.or, v, .accImm⟩),
    (0x10, ⟨.adc, .byte, .rmReg⟩), (0x11, ⟨.adc, .dword, .rmReg⟩), (0x12, ⟨.adc, .byte, .regRm⟩),
    (0x13, ⟨.adc, .dword, .regRm⟩), (0x14, ⟨.adc, .byte, .accImm⟩), (0x15, ⟨.adc, .dword, .accImm⟩),
    (0x18, ⟨.sbb, .byte, .rmReg⟩), (0x19, ⟨.sbb, v, .rmReg⟩), (0x1A, ⟨.sbb, .byte, .regRm⟩),
    (0x1B, ⟨.sbb, v, .regRm⟩),
    (0x20, ⟨.and, .byte, .rmReg⟩), (0x21, ⟨.and, .dword, .rmReg⟩), (0x22, ⟨.and, .byte, .regRm⟩),
    (0x23, ⟨.and, .dword, .regRm⟩), (0x24, ⟨.and, .byte, .accImm⟩), (0x25, ⟨.and, v, .accImm⟩),
    (0x29, ⟨.sub, .dword, .rmReg⟩), (0x2A, ⟨.sub, .dword, .regRm⟩), (0x2B, ⟨.sub, .dword, .regRm⟩),
    (0x2D, ⟨.sub, .dword, .accImm⟩),
    (0x30, ⟨.xor, .byte, .rmReg⟩), (0x31, ⟨.xor, .dword, .rmReg⟩), (0x33, ⟨.xor, .dword, .regRm⟩),
    (0x35, ⟨.xor, v, .accImm⟩),
    (0x38, ⟨.cmp, .byte, .rmReg⟩), (0x39, ⟨.cmp, .dword, .rmReg⟩), (0x3A, ⟨.cmp, .byte, .regRm⟩),
    (0x3B, ⟨.cmp, .dword, .regRm⟩), (0x3C, ⟨.cmp, .byte, .accImm⟩), (0x3D, ⟨.cmp, .dword, .accImm⟩),
    (0x84, ⟨.test, .byte, .rmReg⟩), (0x85, ⟨.test, .dword, .rmReg⟩),
    (0x88, ⟨.mov, .byte, .rmReg⟩), (0x89, ⟨.mov, v, .rmReg⟩), (0x8A, ⟨.mov, .byte, .regRm⟩),
    (0x8B, ⟨.mov, v, .regRm⟩),
    (0xA0, ⟨.mov, .byte, .accMoffs⟩), (0xA1, ⟨.mov, .dword, .accMoffs⟩),
    (0xA2, ⟨.mov, .byte, .moffsAcc⟩), (0xA3, ⟨.mov, .dword, .moffsAcc⟩),
    (0xA8, ⟨.test, .byte, .accImm⟩), (0xA9, ⟨.test, .dword, .accImm⟩),
    (0xC6, ⟨.mov, .byte, .rmImm⟩), (0xC7, ⟨.mov, v, .rmImm⟩)]

/-- The table with the opcodes whose register or whose operation is a part of the code. -/
def formOf (operand16 : Bool) (op : U8) (digit : Reg) : Option Form :=
  if 0xB0 ≤ op ∧ op ≤ 0xB7 then some ⟨.mov, .byte, .regImm⟩
  else if 0xB8 ≤ op ∧ op ≤ 0xBF then some ⟨.mov, .dword, .regImm⟩
  else if op = 0x80 then some ⟨.ofDigit digit, .byte, .rmImm⟩
  else if op = 0x81 ∨ op = 0x83 then some ⟨.ofDigit digit, .ofPrefix operand16, groupShape op⟩
  else if op = 0xF6 then if digit = 0 then some ⟨.test, .byte, .rmImm⟩ else none
  else if op = 0xF7 then if digit = 0 then some ⟨.test, .ofPrefix operand16, .rmImm⟩ else none
  else (formTable (.ofPrefix operand16)).lookup op

section Table
variable {p : Prefixes}

theorem runs_formTable : ∀ e ∈ formTable (.ofPrefix p.operand16),
    Runs (stepOpcode e.1 start p) e.1 e.2 t := by
  unfold formTable
  simp only [List.forall_mem_cons]
  exact ⟨runs_addByte 0x00, runs_wordForms (by decide), runs_addByte 0x02, runs_wordForms (by decide),
    runs_addAccImm 0x04, runs_addAccImm 0x05,
    runs_orByte 0x08, runs_logicWord (by decide), runs_orByte 0x0A, runs_logicWord (by decide),
    runs_orAccImm, runs_logicAccImm 0x0D,
    runs_adcByte 0x10, runs_adcWord 0x11, runs_adcByte 0x12, runs_adcWord 0x13, runs_adcAccImm 0x14,
    runs_adcAccImm 0x15,
    runs_sbbRM8, runs_sbbWord 0x19, runs_sbbR8, runs_sbbWord 0x1B,
    runs_andByte 0x20, runs_logicWord (by decide), runs_andByte 0x22, runs_logicWord (by decide),
    runs_andAccImm, runs_logicAccImm 0x25,
    runs_wordForms (by decide), runs_logicWord (by decide), runs_wordForms (by decide),
    runs_subEAXImm,
    runs_xorByte, runs_wordForms (by decide), runs_wordForms (by decide), runs_logicAccImm 0x35,
    runs_cmpByte, runs_wordForms (by decide), runs_cmpR8, runs_wordForms (by decide), runs_cmpALImm,
    runs_cmpEAXImm,
    runs_testByte, runs_testWord,
    runs_movByte 0x88, runs_movRM (by decide), runs_movByte 0x8A, runs_movRM (by decide),
    runs_movMoffs_load 0xA0 (by decide), runs_movMoffs_load 0xA1 (by decide),
    runs_movMoffs_store 0xA2 (by decide), runs_movMoffs_store 0xA3 (by decide),
    runs_testALImm, runs_testEAXImm, runs_movRM8Imm8 start, runs_movRMImm, by simp⟩

theorem runs_form (h : formOf p.operand16 op (digitAt t.code) = some F) :
    Runs (stepOpcode op start p) op F t := by
  unfold formOf at h
  by_cases hB0 : 0xB0 ≤ op ∧ op ≤ 0xB7
  · rw [if_pos hB0] at h
    cases h
    rw [stepOpcode, if_pos hB0]
    exact runs_movR8Imm8 op
  rw [if_neg hB0] at h
  by_cases hB8 : 0xB8 ≤ op ∧ op ≤ 0xBF
  · rw [if_pos hB8] at h
    cases h
    rw [stepOpcode, if_neg hB0, if_pos hB8]
    exact runs_movR32Imm32 op
  rw [if_neg hB8] at h
  by_cases h80 : op = 0x80
  · subst h80
    cases h
    exact runs_group80 start
  rw [if_neg h80] at h
  by_cases h81 : op = 0x81 ∨ op = 0x83
  · rw [if_pos h81] at h
    cases h
    rcases h81 with rfl | rfl
    · exact runs_group81 0x81
    · exact runs_group81 0x83
  rw [if_neg h81] at h
  by_cases hF6 : op = 0xF6
  · subst hF6
    rw [if_pos rfl] at h
    split at h
    · cases h
      exact runs_testImm_byte ‹_›
    · cases h
  rw [if_neg hF6] at h
  by_cases hF7 : op = 0xF7
  · subst hF7
    rw [if_pos rfl] at h
    split at h
    · cases h
      exact runs_testImm_word ‹_›
    · cases h
  rw [if_neg hF7, List.lookup_eq_some_iff] at h
  obtain ⟨l₁, l₂, hl, -⟩ := h
  exact runs_formTable (op, F) (hl ▸ List.mem_append_right l₁ List.mem_cons_self)

end Table

theorem step_form {s' : Machine} {ps : List U8} {tr : Trap}
    (hrun : s.halted = false) (hat : InstructionAt s.code op ps)
    (hF : formOf (decide (0x66 ∈ ps)) op (digitAt (s.viewAt ps).code) = some F)
    (hstep : step s = .ok tr s') :
    (F.effect op (s.viewAt ps)).Done (ps.length + 1 + F.shape.length F.width (s.viewAt ps)) s.cleared s' := by
  have hint : op ≠ 0xCD := by
    rintro rfl
    cases hF
  refine step_performs hrun hat hint (fun t ht => ?_) hstep
  have hview : t.view = s.viewAt ps := ht.view
  have hform : Runs (stepOpcode op s.eip (prefixesOf ps)) op F t := by
    refine runs_form ?_
    rw [prefixesOf_operand16, ← hF]
    exact congrArg (fun v : View => formOf (decide (0x66 ∈ ps)) op (digitAt v.code)) hview
  rw [Runs, hview] at hform
  exact hform

end IshGo.I386
