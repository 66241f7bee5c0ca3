/-
# `IshGo.I386.Compare` — CMP and the conditions

After CMP the sixteen conditions of Jcc and SETcc say what their names say about the operands:
the order without sign, the order with sign, equality, and sign, overflow and parity of the
difference (`cmp_conditions`).  CMP leaves registers and memory alone.
-/
import IshGo.I386.Binary

namespace IshGo.I386

open Lib

/-! ## Conditions -/

inductive Cond where
  | o
  | no
  | b
  | ae
  | e
  | ne
  | be
  | a
  | s
  | ns
  | p
  | np
  | l
  | ge
  | le
  | g
  deriving DecidableEq, Repr

namespace Cond

def code : Cond → U8
  | o => 0
  | no => 1
  | b => 2
  | ae => 3
  | e => 4
  | ne => 5
  | be => 6
  | a => 7
  | s => 8
  | ns => 9
  | p => 10
  | np => 11
  | l => 12
  | ge => 13
  | le => 14
  | g => 15

variable {w : Nat}

def Holds (x y : BitVec w) : Cond → Prop
  | o => ¬ Fits w (x.toInt - y.toInt)
  | no => Fits w (x.toInt - y.toInt)
  | b => x.toNat < y.toNat
  | ae => y.toNat ≤ x.toNat
  | e => x = y
  | ne => x ≠ y
  | be => x.toNat ≤ y.toNat
  | a => y.toNat < x.toNat
  | s => (x - y).msb = true
  | ns => (x - y).msb = false
  | p => parity (x - y) = true
  | np => parity (x - y) = false
  | l => x.toInt < y.toInt
  | ge => y.toInt ≤ x.toInt
  | le => x.toInt ≤ y.toInt
  | g => y.toInt < x.toInt

end Cond

def Status.cond (c : Status) : Cond → Bool
  | .o => c.of
  | .no => !c.of
  | .b => c.cf
  | .ae => !c.cf
  | .e => c.zf
  | .ne => !c.zf
  | .be => c.cf || c.zf
  | .a => !c.cf && !c.zf
  | .s => c.sf
  | .ns => !c.sf
  | .p => c.pf
  | .np => !c.pf
  | .l => c.sf != c.of
  | .ge => c.sf == c.of
  | .le => c.zf || c.sf != c.of
  | .g => !c.zf && c.sf == c.of

theorem conditionOf_code (f : U32) (cc : Cond) : conditionOf f cc.code = (Status.ofFlags f).cond cc := by
  cases cc with
  | np =>
    show decide (f &&& flagPF = 0) = !decide (f &&& flagPF ≠ 0)
    simp
  | _ => rfl

/-! ## The flags of a difference -/

section Difference
variable {w : Nat} (x y : BitVec w)

theorem diffStatus_cf : (diffStatus x y false).cf = true ↔ x.toNat < y.toNat := decide_eq_true_iff

theorem diffStatus_zf : (diffStatus x y false).zf = true ↔ x = y := by
  show decide (x - y - BitVec.ofNat w 0 = 0) = true ↔ _
  rw [decide_eq_true_iff, BitVec.sub_zero, BitVec.sub_eq_iff_eq_add]
  exact iff_of_eq (congrArg (x = ·) (BitVec.zero_add y))

theorem diffStatus_of : (diffStatus x y false).of = true ↔ ¬ Fits w (x.toInt - y.toInt) := by
  show decide (¬ Fits w (x.toInt - y.toInt - (0 : Nat))) = true ↔ _
  rw [decide_eq_true_iff, Int.natCast_zero, Int.sub_zero]

theorem subBorrow_false : subBorrow x y false = x - y := BitVec.sub_zero _

/-- Sign and overflow together say whether the difference is negative. -/
theorem sign_ne_overflow (hw : 0 < w) :
    ((diffStatus x y false).sf != (diffStatus x y false).of) = true ↔ x.toInt < y.toInt := by
  show ((subBorrow x y false).msb != subOverflow x y false) = true ↔ _
  have hdiff := toNat_subBorrow x y false
  have hborrow := Bool.toNat_le (borrowOut x y false)
  rw [subOverflow_eq hw, subBorrow_false]
  rw [subBorrow_false, two_pow_eq hw, Nat.mul_assoc, Bool.toNat_false] at hdiff
  have hx := sign_cases hw x
  have hy := sign_cases hw y
  have hr := sign_cases hw (x - y)
  have hltx := x.isLt
  have hlty := y.isLt
  have hltr := (x - y).isLt
  rw [two_pow_eq hw] at hltx hlty hltr
  generalize 2 ^ (w - 1) = half at *
  rcases hx with ⟨hx, hlx, hix⟩ | ⟨hx, hlx, hix⟩ <;>
  rcases hy with ⟨hy, hly, hiy⟩ | ⟨hy, hly, hiy⟩ <;>
  rcases hr with ⟨hr, hlr, -⟩ | ⟨hr, hlr, -⟩ <;>
  rw [hx, hy, hr, hix, hiy] <;>
  rcases Nat.le_one_iff_eq_zero_or_eq_one.mp hborrow with hz | hz <;>
  rw [hz] at hdiff <;>
  simp <;> omega

theorem holds_iff (hw : 0 < w) (f : U32) (cc : Cond) :
    conditionOf ((diffStatus x y false).into f) cc.code = true ↔ cc.Holds x y := by
  have hcf := diffStatus_cf x y
  have hzf := diffStatus_zf x y
  have hof := diffStatus_of x y
  have hlt := sign_ne_overflow x y hw
  have hge : ((diffStatus x y false).sf == (diffStatus x y false).of) = true ↔
      ¬ x.toInt < y.toInt := by
    rw [← hlt]
    cases (diffStatus x y false).sf <;> cases (diffStatus x y false).of <;> decide
  rw [conditionOf_code, Status.ofFlags_into]
  have hsf : (diffStatus x y false).sf = (x - y).msb := congrArg BitVec.msb (subBorrow_false x y)
  have hpf : (diffStatus x y false).pf = parity (x - y) := congrArg parity (subBorrow_false x y)
  cases cc with
  | o => exact hof
  | no => simpa [Status.cond, Cond.Holds] using not_congr hof
  | b => exact hcf
  | ae => simpa [Status.cond, Cond.Holds] using not_congr hcf
  | e => exact hzf
  | ne => simpa [Status.cond, Cond.Holds] using not_congr hzf
  | be =>
    simp only [Status.cond, Bool.or_eq_true, hcf, hzf, Cond.Holds, ← BitVec.toNat_inj]
    omega
  | a =>
    have hcf' := not_congr hcf
    have hzf' := not_congr hzf
    simp only [Bool.not_eq_true] at hcf' hzf'
    simp only [Status.cond, Bool.and_eq_true, Bool.not_eq_true', hcf', hzf', Cond.Holds, ← BitVec.toNat_inj]
    omega
  | s => exact iff_of_eq (congrArg (· = true) hsf)
  | ns => simp [Status.cond, Cond.Holds, hsf]
  | p => exact iff_of_eq (congrArg (· = true) hpf)
  | np => simp [Status.cond, Cond.Holds, hpf]
  | l => exact hlt
  | ge =>
    rw [Status.cond, hge]
    exact Int.not_lt
  | le =>
    simp only [Status.cond, Bool.or_eq_true, hzf, hlt, Cond.Holds, ← BitVec.toInt_inj]
    omega
  | g =>
    have hzf' := not_congr hzf
    simp only [Bool.not_eq_true] at hzf'
    simp only [Status.cond, Bool.and_eq_true, Bool.not_eq_true', hzf', hge, Cond.Holds, ← BitVec.toInt_inj]
    omega

end Difference

/-! ## CMP -/

/-- The encodings of CMP: whether the prefix 66 is there, the opcode, the digit, and with it the
width and the operands. -/
inductive CmpForm : Bool → U8 → Reg → Width → Shape → Prop where
  | rm8_r8 (operand16 : Bool) (digit : Reg) : CmpForm operand16 0x38 digit .byte .rmReg
  | r8_rm8 (operand16 : Bool) (digit : Reg) : CmpForm operand16 0x3A digit .byte .regRm
  | al_imm8 (operand16 : Bool) (digit : Reg) : CmpForm operand16 0x3C digit .byte .accImm
  | rm8_imm8 (operand16 : Bool) : CmpForm operand16 0x80 7 .byte .rmImm
  | rm16_imm16 : CmpForm true 0x81 7 .word .rmImm
  | rm16_imm8 : CmpForm true 0x83 7 .word .rmImm8
  | rm32_r32 (digit : Reg) : CmpForm false 0x39 digit .dword .rmReg
  | r32_rm32 (digit : Reg) : CmpForm false 0x3B digit .dword .regRm
  | eax_imm32 (digit : Reg) : CmpForm false 0x3D digit .dword .accImm
  | rm32_imm32 : CmpForm false 0x81 7 .dword .rmImm
  | rm32_imm8 : CmpForm false 0x83 7 .dword .rmImm8

theorem CmpForm.formOf {operand16 : Bool} {op : U8} {digit : Reg} {w : Width} {sh : Shape}
    (h : CmpForm operand16 op digit w sh) : formOf operand16 op digit = some ⟨.cmp, w, sh⟩ := by
  cases h <;> rfl

/-- **CMP.**  After it has been executed, a condition holds exactly if it holds of the operands;
registers and memory are as before. -/
theorem cmp_conditions {s s' : Machine} {ps : List U8} {op : U8} {tr : Trap} {w : Width} {sh : Shape}
    (hrun : s.halted = false) (hat : InstructionAt s.code op ps)
    (hform : CmpForm (decide (0x66 ∈ ps)) op (digitAt (s.viewAt ps).code) w sh)
    (hstep : step s = .ok tr s') :
    (∀ cc : Cond, conditionOf s'.eflags cc.code = true ↔
      cc.Holds ((sh.dst op (s.viewAt ps)).value w s.regs s.mem.data)
        ((sh.src w (s.viewAt ps)).value w s.regs s.mem.data)) ∧
      s'.regs = s.regs ∧ s'.mem = s.mem := by
  obtain ⟨hdone, -⟩ := step_form hrun hat hform.formOf hstep
  refine ⟨fun cc => ?_, hdone.regs, hdone.mem⟩
  rw [hdone.eflags]
  exact holds_iff _ _ w.bits_pos _ cc

/-- CMP EAX, ECX with `-1` and `1`. -/
def comparing : Machine :=
  .running [0x39, 0xC8] (fun r => if r = EAX then 0xffffffff else if r = ECX then 1 else 0) 2

theorem cmp_conditions_signed_unsigned :
    conditionOf (after step comparing).eflags Cond.l.code = true ∧
      conditionOf (after step comparing).eflags Cond.a.code = true ∧
      (after step comparing).regs = comparing.regs := by
  obtain ⟨hcond, hregs, -⟩ := cmp_conditions (s := comparing) rfl
    (show InstructionAt _ _ [] by decide) (.rm32_r32 _) (ok_of_returned (a := .none) (by decide +kernel))
  have hsigned : (0xffffffff : U32).toInt < (1 : U32).toInt := by decide
  have hunsigned : (1 : U32).toNat < (0xffffffff : U32).toNat := by decide
  exact ⟨(hcond .l).mpr hsigned, (hcond .a).mpr hunsigned, hregs⟩

end IshGo.I386
