/-
# `IshGo.I386.Multiply` — MUL and IMUL

All seven encodings store the product, as far as the destination goes.  CF and OF should say whether
the lower half is all of it, and are not computed at all:

    F6 /4 /5, F7 /4 /5      the flags stay as they are
    0F AF, 69, 6B           `setLogicFlags` clears both
-/
import IshGo.I386.Operand16

namespace IshGo.I386

open Lib

/-! ## Numbers -/

section Numbers
variable {w : Nat}

def num (signed : Bool) (x : BitVec w) : Int := if signed then x.toInt else x.toNat

/-- A number that can be written in `w` bits. -/
def Fits (signed : Bool) (w : Nat) (n : Int) : Prop := num signed (BitVec.ofInt w n) = n

instance (signed : Bool) (n : Int) : Decidable (Fits signed w n) := inferInstanceAs (Decidable (_ = _))

theorem ofInt_num (signed : Bool) (v : Nat) (x : BitVec w) :
    BitVec.ofInt v (num signed x) = if signed then x.signExtend v else x.setWidth v := by
  cases signed with
  | false => exact (BitVec.ofInt_natCast v x.toNat).trans (BitVec.ofNat_toNat v x)
  | true => rfl

theorem ofInt_mul_num (signed : Bool) (v : Nat) (a b : BitVec w) :
    BitVec.ofInt v (num signed a * num signed b) =
      if signed then a.signExtend v * b.signExtend v else a.setWidth v * b.setWidth v := by
  rw [BitVec.ofInt_mul, ofInt_num, ofInt_num]
  cases signed <;> rfl

theorem ofInt_mul_word (a b : U32) : BitVec.ofInt 32 (num true a * num true b) = a * b := by
  rw [ofInt_mul_num, if_pos rfl, BitVec.signExtend_eq, BitVec.signExtend_eq]

end Numbers

/-! ## The encodings -/

inductive MulForm where
  | al (signed : Bool)
  | eax (signed : Bool)
  | reg
  | imm (byte : Bool)
  deriving DecidableEq, Repr

open MulForm

namespace MulForm

def opcode : MulForm → U8
  | al _ => 0xF6
  | eax _ => 0xF7
  | reg => 0x0F
  | imm byte => if byte then 0x6B else 0x69

def Encoded (v : View) : MulForm → Prop
  | al signed | eax signed => digitAt v.code = if signed then 5 else 4
  | reg => v.code 0 = 0xAF
  | imm _ => True

def signed : MulForm → Bool
  | al signed | eax signed => signed
  | reg | imm _ => true

@[reducible] def width : MulForm → Width
  | al _ => .byte
  | eax _ | reg | imm _ => .dword

def factors (v : View) : (f : MulForm) → BitVec f.width.bits × BitVec f.width.bits
  | al _ => (byteOf v.regs 0, (Shape.rm v).value .byte v.regs v.data)
  | eax _ => (v.regs EAX, (Shape.rm v).value .dword v.regs v.data)
  | reg => (v.regs (digitAt v.next.code), (Shape.rm v.next).value .dword v.regs v.data)
  | imm byte => ((Shape.rm v).value .dword v.regs v.data,
      let k := modRMLength v.code
      if byte then sext8 (v.code k) else immAt .dword v.code k)

def product (f : MulForm) (v : View) : Int :=
  num f.signed (f.factors v).1 * num f.signed (f.factors v).2

/-- The registers with the product in AX, in EDX:EAX or in the register of the ModRM byte. -/
def stored (f : MulForm) (v : View) : Reg → U32 :=
  match f with
  | al _ => putWord v.regs EAX (BitVec.ofInt 16 (f.product v))
  | eax _ =>
    let wide := BitVec.ofInt 64 (f.product v)
    putReg (putReg v.regs EAX (wide.setWidth 32)) EDX ((wide >>> 32).setWidth 32)
  | reg => putReg v.regs (digitAt v.next.code) (BitVec.ofInt 32 (f.product v))
  | imm _ => putReg v.regs (digitAt v.code) (BitVec.ofInt 32 (f.product v))

def Overflows (f : MulForm) (v : View) : Prop := ¬ Fits f.signed f.width.bits (f.product v)

instance (f : MulForm) (v : View) : Decidable (f.Overflows v) := inferInstanceAs (Decidable (¬ _))

/-- CF and OF say whether the product has been cut off, or the upper half is needed. -/
def FlagsRight (f : MulForm) (v : View) (flags : U32) : Prop :=
  (Status.ofFlags flags).cf = decide (f.Overflows v) ∧ (Status.ofFlags flags).of = decide (f.Overflows v)

/-- The forms that call `setLogicFlags`. -/
def clears : MulForm → Bool
  | al _ | eax _ => false
  | reg | imm _ => true

def flags (f : MulForm) (v : View) : U32 :=
  if f.clears then (resultStatus (BitVec.ofInt 32 (f.product v)) false false).into v.eflags
  else v.eflags

end MulForm

/-! ## The arms -/

structure Becomes (regs : Reg → U32) (eflags : U32) (s t : Machine) : Prop where
  regs : t.regs = regs
  eflags : t.eflags = eflags
  mem : t.mem = s.mem

variable {t : Machine} {start : U32} {operand16 byte signed : Bool}

theorem groupF6_eq : groupF6F7 0xF6 start operand16 =
    decodeModRM >>= fun m => readRM8 m >>= fun v => unaryGroup start true m (v.setWidth 32) := by
  unfold groupF6F7
  refine bind_congr fun m => ?_
  rw [if_neg (by simp), if_pos rfl]

theorem groupF7_eq : groupF6F7 0xF7 start false =
    decodeModRM >>= fun m => readRM m >>= unaryGroup start false m := rfl

theorem unaryGroup_mul {m : ModRM} {value : U32} (h : m.reg = if signed then 5 else 4) :
    unaryGroup start byte m value = if byte then mulByte signed value else mulWord signed value := by
  unfold unaryGroup
  rw [h]
  cases signed <;> rfl

theorem becomes_al (h : (al signed).Encoded t.view) :
    Ensures (groupF6F7 0xF6 start operand16) t fun _ u =>
      Becomes ((al signed).stored t.view) t.eflags t u := by
  have hdigit : (modRMAt t.regs t.code).reg = if signed then 5 else 4 := h
  have hmul : (al signed).stored t.view = putWord t.regs EAX _ :=
    congrArg (putWord t.regs EAX) (ofInt_mul_num signed 16 _ _)
  rw [groupF6_eq, ensures_bind]
  refine ensures_decodeModRM ?_
  rw [ensures_bind]
  refine ensures_readRM8 ?_
  rw [unaryGroup_mul hdigit, if_pos rfl, hmul]
  unfold mulByte
  rw [ensures_bind, ensures_byteReg, byte_back, ensures_setReg16]
  exact ⟨rfl, rfl, rfl⟩

theorem becomes_eax (h : (eax signed).Encoded t.view) :
    Ensures (groupF6F7 0xF7 start operand16) t fun _ u =>
      Becomes ((eax signed).stored t.view) t.eflags t u := by
  have hdigit : (modRMAt t.regs t.code).reg = if signed then 5 else 4 := h
  cases operand16 with
  | true =>
    refine ensures_groupF7_refused (ne_of_eq_of_ne hdigit ?_)
    cases signed <;> decide
  | false =>
    rw [groupF7_eq, ensures_bind]
    refine ensures_decodeModRM ?_
    rw [ensures_bind]
    refine ensures_readRM (modRMAt_current _ _) ?_
    rw [unaryGroup_mul hdigit, if_neg Bool.false_ne_true]
    unfold mulWord
    rw [ensures_bind, ensures_getReg, ensures_bind, ensures_setReg, ensures_setReg, ← ofInt_mul_num]
    exact ⟨rfl, rfl, rfl⟩

/-- The end of the forms with a register as their destination. -/
theorem becomes_word {f : MulForm} {u : Machine} {r : Reg} {a b : U32} (hu : Becomes t.regs t.eflags t u)
    (hmul : BitVec.ofInt 32 (f.product t.view) = a * b)
    (hregs : f.stored t.view = putReg t.regs r (BitVec.ofInt 32 (f.product t.view)))
    (hflags : f.flags t.view =
      (resultStatus (BitVec.ofInt 32 (f.product t.view)) false false).into t.eflags) :
    Ensures (setReg r (a * b) >>= fun _ => setLogicFlags (a * b)) u fun _ u' =>
      Becomes (f.stored t.view) (f.flags t.view) t u' := by
  rw [ensures_bind, ensures_setReg, ensures_setLogicFlags, hregs, hflags, hmul, ← hu.regs, ← hu.eflags]
  exact ⟨rfl, rfl, hu.mem⟩

theorem becomes_reg (h : reg.Encoded t.view) :
    Ensures (stepExtended start) t fun _ u =>
      Becomes (reg.stored t.view) (reg.flags t.view) t u := by
  unfold stepExtended
  rw [ensures_bind]
  refine ensures_fetch8 ?_
  rw [show t.code 0 = 0xAF from h]
  show Ensures imulRM _ _
  unfold imulRM
  rw [ensures_bind]
  refine ensures_decodeModRM ?_
  rw [ensures_bind]
  refine ensures_readRM (modRMAt_current _ _) ?_
  rw [ensures_bind, ensures_getReg, Machine.code_fetched]
  exact becomes_word ⟨rfl, rfl, rfl⟩ (ofInt_mul_word _ _) rfl rfl

theorem becomes_imm (byte : Bool) :
    Ensures (imulImm (if byte then 0x6B else 0x69)) t fun _ u =>
      Becomes ((imm byte).stored t.view) ((imm byte).flags t.view) t u := by
  have hmul : BitVec.ofInt 32 ((imm byte).product t.view) = _ := ofInt_mul_word _ _
  unfold imulImm
  rw [ensures_bind]
  refine ensures_decodeModRM ?_
  rw [ensures_bind]
  refine ensures_readRM (modRMAt_current _ _) ?_
  cases byte with
  | false =>
    rw [if_neg Bool.false_ne_true, if_pos rfl, ensures_bind]
    refine ensures_fetch32 ?_
    exact becomes_word ⟨rfl, rfl, rfl⟩
      (hmul.trans (congrArg (_ * ·) (immAt_fetched (s := t) .dword (modRMLength t.code) 0).symm)) rfl rfl
  | true =>
    rw [if_pos rfl, if_neg (by decide), map_eq_pure_bind, ensures_bind, ensures_bind]
    refine ensures_fetch8 ?_
    rw [ensures_pure]
    exact becomes_word ⟨rfl, rfl, rfl⟩
      (hmul.trans (congrArg (_ * sext8 ·) (t.fetched_code (modRMLength t.code) 0).symm)) rfl rfl

theorem becomes_mul (f : MulForm) (p : Prefixes) (h : f.Encoded t.view) :
    Ensures (stepOpcode f.opcode start p) t fun _ u => Becomes (f.stored t.view) (f.flags t.view) t u := by
  cases f with
  | al signed => exact becomes_al h
  | eax signed => exact becomes_eax h
  | reg => exact becomes_reg h
  | imm byte =>
    have harm : stepOpcode (imm byte).opcode start p = imulImm (if byte then 0x6B else 0x69) := by
      cases byte <;> rfl
    rw [harm]
    exact becomes_imm byte

section Step
variable {s s' : Machine} {ps : List U8} {tr : Trap}

theorem step_mul (f : MulForm) (hrun : s.halted = false) (hat : InstructionAt s.code f.opcode ps)
    (henc : f.Encoded (s.viewAt ps)) (hstep : step s = .ok tr s') :
    Becomes (f.stored (s.viewAt ps)) (f.flags (s.viewAt ps)) s s' := by
  have hint : f.opcode ≠ 0xCD := by
    cases f with
    | al signed | eax signed => cases signed <;> decide
    | reg => decide
    | imm byte => cases byte <;> decide
  refine ensures_step (Q := Becomes _ _ s) hrun hat hint (fun t ht => ?_) tr s' hstep
  have hview : t.view = s.viewAt ps := ht.view
  refine (becomes_mul f _ (hview ▸ henc)).mono fun _ u hu => ?_
  rw [hview] at hu
  exact ⟨hu.regs, hu.eflags, hu.mem.trans ht.mem⟩

/-- **Multiplication.**  The product is stored as it should be.  The flags are right if they happened
to be so before the instruction, or, where the instruction clears them, if nothing is cut off. -/
theorem multiply_flags_iff (f : MulForm) (hrun : s.halted = false)
    (hat : InstructionAt s.code f.opcode ps) (henc : f.Encoded (s.viewAt ps))
    (hstep : step s = .ok tr s') :
    let v := s.viewAt ps
    s'.regs = f.stored v ∧ s'.mem = s.mem ∧
      (f.FlagsRight v s'.eflags ↔
        if f.clears then ¬ f.Overflows v else f.FlagsRight v s.eflags) := by
  obtain ⟨hregs, hflags, hmem⟩ := step_mul f hrun hat henc hstep
  refine ⟨hregs, hmem, ?_⟩
  rw [hflags, flags]
  split
  · rw [MulForm.FlagsRight, Status.ofFlags_into]
    simp [resultStatus]
  · exact Iff.rfl

end Step

def squaring (x : U32) : Machine := .running [0x0F, 0xAF, 0xC8] (fun _ => x) 2

theorem multiply_flags_iff_seven :
    (after step (squaring 7)).regs ECX = 49 ∧
      (Status.ofFlags (after step (squaring 7)).eflags).cf = false := by
  have hat : InstructionAt (squaring 7).code reg.opcode [] := by decide
  obtain ⟨hregs, -, hflags⟩ := multiply_flags_iff .reg rfl hat rfl
    (ok_of_returned (a := .none) (by decide +kernel))
  have hfits : ¬ reg.Overflows ((squaring 7).viewAt []) := by decide
  exact ⟨(congrFun hregs ECX).trans (by decide), (hflags.mpr hfits).1.trans (decide_eq_false hfits)⟩

/-- The square of `0x10000` is cut off, and MUL of `0x10000` by itself needs EDX. -/
theorem multiply_silent :
    let s := squaring 0x10000
    let t : Machine := .running [0xF7, 0xE1] (fun _ => 0x10000) 2
    (after step s).regs ECX = 0 ∧ carryFlag (after step s).eflags = false ∧
      (after step t).regs EDX = 1 ∧ carryFlag (after step t).eflags = false := by
  decide +kernel

end IshGo.I386
