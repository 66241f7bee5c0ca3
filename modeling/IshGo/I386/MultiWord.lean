/-
# `IshGo.I386.MultiWord` — numbers of several words, by ADD and ADC, by SUB and SBB

A number that is too long for a register is added digit by digit: ADD for the lowest digits, ADC
for each following pair, with whatever moves the digits about in between, as long as it leaves
the flags.  `Chain` is such a run.
-/
import IshGo.I386.Binary
import Mathlib.Logic.Relation

namespace IshGo.I386

open Lib Status List

variable {E : Encodings} {o : AluOp}
variable {w : Width} {xs ys rs : List (BitVec w.bits)} {x y r : BitVec w.bits} {s t : Machine}

/-! ## Runs -/

/-- Encodings of an operation: whether the prefix 66 is there, the opcode, the digit, and with it
the width and the operands. -/
abbrev Encodings := AluOp → Bool → U8 → Reg → Width → Shape → Prop

def Encodings.Valid (E : Encodings) : Prop :=
  ∀ {o operand16 op digit w sh}, E o operand16 op digit w sh → formOf operand16 op digit = some ⟨o, w, sh⟩

/-- An instruction for the operation `o` is executed: its operands are `x` and `y`, and it leaves
`r` in the first of them. -/
inductive Executed (E : Encodings) (o : AluOp) (w : Width) (x y r : BitVec w.bits) (s t : Machine) :
    Prop where
  | step {ps : List U8} {op : U8} {sh : Shape} {tr : Trap} (hrun : s.halted = false)
      (hat : InstructionAt s.code op ps)
      (hform : E o (decide (0x66 ∈ ps)) op (digitAt (s.viewAt ps).code) w sh)
      (hx : (sh.dst op (s.viewAt ps)).value w s.regs s.mem.data = x)
      (hy : (sh.src w (s.viewAt ps)).value w s.regs s.mem.data = y)
      (hstep : step s = .ok tr t)
      (hr : (sh.dst op (s.viewAt ps)).value w t.regs t.mem.data = r)

def Quiet (s t : Machine) : Prop := step s = .ok .none t ∧ t.eflags = s.eflags

/-- One digit after the other, the lowest first: the digits of the operands and of the result. -/
inductive Chain (E : Encodings) (first next : AluOp) (w : Width) :
    List (BitVec w.bits) → List (BitVec w.bits) → List (BitVec w.bits) → Machine → Prop where
  | first {x y r : BitVec w.bits} {s t : Machine} (h : Executed E first w x y r s t) :
      Chain E first next w [x] [y] [r] t
  | next {xs ys rs : List (BitVec w.bits)} {x y r : BitVec w.bits} {s t u : Machine}
      (h : Chain E first next w xs ys rs s) (hquiet : Relation.ReflTransGen Quiet s t)
      (hlast : Executed E next w x y r t u) :
      Chain E first next w (xs ++ [x]) (ys ++ [y]) (rs ++ [r]) u

/-- One step of a machine whose code and operands can be looked up, without a prefix. -/
theorem executed_of_step {op : U8} {sh : Shape} {x y r : U32}
    (hform : E o false op (digitAt (s.viewAt []).code) .dword sh)
    (h : s.halted = false ∧ InstructionAt s.code op [] ∧ returned step s = some .none ∧
      (sh.dst op (s.viewAt [])).value .dword s.regs s.mem.data = x ∧
      (sh.src .dword (s.viewAt [])).value .dword s.regs s.mem.data = y ∧
      (sh.dst op (s.viewAt [])).value .dword (after step s).regs (after step s).mem.data = r) :
    Executed E o .dword x y r s (after step s) :=
  .step h.1 h.2.1 hform h.2.2.2.1 h.2.2.2.2.1 (ok_of_returned h.2.2.1) h.2.2.2.2.2

theorem quiet_eflags (h : Relation.ReflTransGen Quiet s t) : t.eflags = s.eflags := by
  induction h with
  | refl => rfl
  | tail _ hstep ih => exact hstep.2.trans ih

theorem Shape.dst_ne_imm (sh : Shape) (op : U8) (v : View) (i : U32) : sh.dst op v ≠ .imm i := by
  have hrm : rm v ≠ .imm i := by
    unfold rm ModRM.operand
    split
    · exact Operand.noConfusion
    · exact Operand.noConfusion
  cases sh with
  | rmReg | rmImm | rmImm8 => exact hrm
  | regRm | accImm | regImm | accMoffs | moffsAcc => exact Operand.noConfusion

theorem Executed.result (hE : E.Valid) (ho : o.writes = true) (h : Executed E o w x y r s t) :
    r = o.apply (carryFlag s.eflags) x y ∧ t.eflags = o.flagsSet s.eflags x y := by
  obtain ⟨hrun, hat, hform, hx, hy, hstep, hr⟩ := h
  rename_i ps op sh tr
  obtain ⟨hdone, -⟩ := step_form hrun hat (hE hform) hstep
  have hres : (Form.effect ⟨o, w, sh⟩ op (s.viewAt ps)).result =
      some (o.apply (carryFlag s.eflags) x y) := by
    rw [← hx, ← hy]
    exact if_pos ho
  have hregs := hdone.regs
  have hmem := congrArg Memory.data hdone.mem
  rw [Effect.regs, hres] at hregs
  rw [Effect.data, hres] at hmem
  refine ⟨?_, ?_⟩
  · rw [← hr, hregs, hmem]
    exact Operand.value_store (sh.dst_ne_imm op _) w _ _ _
  · rw [hdone.eflags, ← hx, ← hy]
    rfl

/-! ## Sums -/

inductive AddForm : Encodings where
  | add_rm8_r8 (operand16 : Bool) (digit : Reg) : AddForm .add operand16 0x00 digit .byte .rmReg
  | add_r8_rm8 (operand16 : Bool) (digit : Reg) : AddForm .add operand16 0x02 digit .byte .regRm
  | add_al_imm8 (operand16 : Bool) (digit : Reg) : AddForm .add operand16 0x04 digit .byte .accImm
  | add_rm32_r32 (digit : Reg) : AddForm .add false 0x01 digit .dword .rmReg
  | add_r32_rm32 (digit : Reg) : AddForm .add false 0x03 digit .dword .regRm
  | add_eax_imm32 (digit : Reg) : AddForm .add false 0x05 digit .dword .accImm
  | add_rm32_imm32 : AddForm .add false 0x81 0 .dword .rmImm
  | add_rm32_imm8 : AddForm .add false 0x83 0 .dword .rmImm8
  | add_rm16_imm16 : AddForm .add true 0x81 0 .word .rmImm
  | add_rm16_imm8 : AddForm .add true 0x83 0 .word .rmImm8
  | adc_rm8_r8 (operand16 : Bool) (digit : Reg) : AddForm .adc operand16 0x10 digit .byte .rmReg
  | adc_r8_rm8 (operand16 : Bool) (digit : Reg) : AddForm .adc operand16 0x12 digit .byte .regRm
  | adc_al_imm8 (operand16 : Bool) (digit : Reg) : AddForm .adc operand16 0x14 digit .byte .accImm
  | adc_rm32_r32 (digit : Reg) : AddForm .adc false 0x11 digit .dword .rmReg
  | adc_r32_rm32 (digit : Reg) : AddForm .adc false 0x13 digit .dword .regRm
  | adc_eax_imm32 (digit : Reg) : AddForm .adc false 0x15 digit .dword .accImm
  | adc_rm32_imm32 : AddForm .adc false 0x81 2 .dword .rmImm
  | adc_rm32_imm8 : AddForm .adc false 0x83 2 .dword .rmImm8
  | adc_rm16_imm16 : AddForm .adc true 0x81 2 .word .rmImm
  | adc_rm16_imm8 : AddForm .adc true 0x83 2 .word .rmImm8

theorem addForm_valid : Encodings.Valid AddForm := by
  intro o operand16 op digit w sh h
  cases h <;> rfl

theorem Executed.added (h : Executed AddForm .add w x y r s t) :
    r = addCarry x y false ∧ ofFlags t.eflags = sumStatus x y false := by
  obtain ⟨hr, hf⟩ := h.result addForm_valid rfl
  refine ⟨hr.trans (BitVec.add_zero _).symm, ?_⟩
  rw [hf]
  exact ofFlags_into _ _

theorem Executed.added_carry (h : Executed AddForm .adc w x y r s t) :
    r = addCarry x y (carryFlag s.eflags) ∧
      ofFlags t.eflags = sumStatus x y (carryFlag s.eflags) := by
  obtain ⟨hr, hf⟩ := h.result addForm_valid rfl
  refine ⟨hr, ?_⟩
  rw [hf]
  exact ofFlags_into _ _

theorem addChain_split (h : Chain AddForm .add .adc w xs ys rs t) :
    ∃ xs' ys' rs' c x y, Sums xs' ys' rs' c ∧ xs = xs' ++ [x] ∧ ys = ys' ++ [y] ∧
      rs = rs' ++ [addCarry x y c] ∧ ofFlags t.eflags = sumStatus x y c := by
  induction h with
  | @first x y r s t h =>
    obtain ⟨rfl, hf⟩ := h.added
    exact ⟨[], [], [], false, x, y, Sums.nil, rfl, rfl, rfl, hf⟩
  | @next xs ys rs x y r s t u _ hquiet hlast ih =>
    obtain ⟨xs', ys', rs', c, x', y', hsum, rfl, rfl, rfl, hflags⟩ := ih
    obtain ⟨rfl, hf⟩ := hlast.added_carry
    -- the carry that goes in is the one that the digit before has left
    have hcarry : carryFlag t.eflags = carryOut x' y' c := by
      rw [quiet_eflags hquiet]
      exact congrArg cf hflags
    rw [hcarry] at hf ⊢
    exact ⟨_, _, _, _, x, y, hsum.concat x' y', rfl, rfl, rfl, hf⟩

/-- **Addition of several words.** -/
theorem addChain_sum (h : Chain AddForm .add .adc w xs ys rs t) :
    xs.length = rs.length ∧ ys.length = rs.length ∧
      natOf rs = (natOf xs + natOf ys) % 2 ^ (w.bits * rs.length) ∧
      (ofFlags t.eflags).cf = decide (2 ^ (w.bits * rs.length) ≤ natOf xs + natOf ys) ∧
      (ofFlags t.eflags).of = decide (¬ Fits (w.bits * rs.length) (intOf xs + intOf ys)) ∧
      rs.getLast?.map BitVec.msb = some (ofFlags t.eflags).sf := by
  obtain ⟨xs', ys', rs', c, x, y, hsum, rfl, rfl, rfl, hflags⟩ := addChain_split h
  have hall := hsum.concat x y
  obtain ⟨hdigits, hcarry⟩ := hall.natOf_eq
  have hfits := hsum.fits_iff w.bits_pos x y
  refine ⟨hall.length_left, hall.length_right, hdigits, ?_, ?_, ?_⟩
  · rw [hflags, ← hcarry]
    rfl
  · rw [hflags, length_append, length_singleton]
    exact decide_eq_decide.mpr (not_congr hfits.symm)
  · rw [hflags, getLast?_concat]
    rfl

def addingTwoWords : Machine :=
  .running [0x01, 0xC8, 0x11, 0xDA]
    (fun r => if r = EAX then 0xffffffff else if r = ECX then 1 else if r = EDX then 0x7fffffff else 0) 2

theorem addingTwoWords_chain :
    Chain AddForm .add .adc .dword [0xffffffff, 0x7fffffff] [1, 0] [0, 0x80000000]
      (after step (after step addingTwoWords)) := by
  have hadd : Executed AddForm .add .dword 0xffffffff 1 0 addingTwoWords _ :=
    executed_of_step (.add_rm32_r32 _) (by decide +kernel)
  have hadc : Executed AddForm .adc .dword 0x7fffffff 0 0x80000000 (after step addingTwoWords) _ :=
    executed_of_step (.adc_rm32_r32 _) (by decide +kernel)
  exact .next (.first hadd) .refl hadc

theorem addChain_sum_two_words :
    (ofFlags (after step (after step addingTwoWords)).eflags).of = true ∧
      natOf [0#32, 0x80000000#32] = (natOf [0xffffffff#32, 0x7fffffff#32] + natOf [1#32, 0#32]) % 2 ^ 64 := by
  obtain ⟨-, -, hdigits, -, hof, -⟩ := addChain_sum addingTwoWords_chain
  exact ⟨hof.trans (by decide +kernel), hdigits⟩

/-! ## Differences -/

inductive SubForm : Encodings where
  | sub_rm8_imm8 (operand16 : Bool) : SubForm .sub operand16 0x80 5 .byte .rmImm
  | sub_rm32_r32 (digit : Reg) : SubForm .sub false 0x29 digit .dword .rmReg
  | sub_r32_rm32 (digit : Reg) : SubForm .sub false 0x2B digit .dword .regRm
  | sub_eax_imm32 (digit : Reg) : SubForm .sub false 0x2D digit .dword .accImm
  | sub_rm32_imm32 : SubForm .sub false 0x81 5 .dword .rmImm
  | sub_rm32_imm8 : SubForm .sub false 0x83 5 .dword .rmImm8
  | sub_rm16_imm16 : SubForm .sub true 0x81 5 .word .rmImm
  | sub_rm16_imm8 : SubForm .sub true 0x83 5 .word .rmImm8
  | sbb_rm8_r8 (operand16 : Bool) (digit : Reg) : SubForm .sbb operand16 0x18 digit .byte .rmReg
  | sbb_r8_rm8 (operand16 : Bool) (digit : Reg) : SubForm .sbb operand16 0x1A digit .byte .regRm
  | sbb_rm32_r32 (digit : Reg) : SubForm .sbb false 0x19 digit .dword .rmReg
  | sbb_r32_rm32 (digit : Reg) : SubForm .sbb false 0x1B digit .dword .regRm
  | sbb_rm32_imm32 : SubForm .sbb false 0x81 3 .dword .rmImm
  | sbb_rm32_imm8 : SubForm .sbb false 0x83 3 .dword .rmImm8
  | sbb_rm16_r16 (digit : Reg) : SubForm .sbb true 0x19 digit .word .rmReg
  | sbb_r16_rm16 (digit : Reg) : SubForm .sbb true 0x1B digit .word .regRm
  | sbb_rm16_imm16 : SubForm .sbb true 0x81 3 .word .rmImm
  | sbb_rm16_imm8 : SubForm .sbb true 0x83 3 .word .rmImm8

theorem subForm_valid : Encodings.Valid SubForm := by
  intro o operand16 op digit w sh h
  cases h <;> rfl

/-- No digit of a subtrahend of words is `0xffffffff` where the lower digits leave a borrow. -/
def CarrySafe (w : Width) (xs ys : List (BitVec w.bits)) : Prop :=
  ∀ i, natOf (xs.take i) < natOf (ys.take i) → w = .dword → ys[i]? ≠ some (BitVec.allOnes w.bits)

/-- The top digit of the subtrahend is not the largest positive one, if the lower digits leave a
borrow. -/
def OverflowSafe (w : Width) (xs ys : List (BitVec w.bits)) : Prop :=
  natOf xs.dropLast < natOf ys.dropLast → ys.getLast? ≠ some (BitVec.intMax w.bits)

theorem carrySafe_concat (hlen : xs.length = ys.length) :
    CarrySafe w (xs ++ [x]) (ys ++ [y]) ↔ CarrySafe w xs ys ∧
      (natOf xs < natOf ys → w = .dword → y ≠ BitVec.allOnes w.bits) := by
  constructor
  · intro h
    refine ⟨fun i hlt hw hi => ?_, fun hlt hw hy => ?_⟩
    · have hb : i < ys.length := (List.getElem?_eq_some_iff.mp hi).1
      refine h i ?_ hw ?_
      · rwa [take_append_of_le_length (by omega), take_append_of_le_length (by omega)]
      · rwa [List.getElem?_append_left hb]
    · refine h ys.length ?_ hw ?_
      · rwa [take_left' hlen, take_left' rfl]
      · rw [List.getElem?_concat_length, hy]
  rintro ⟨hlow, htop⟩ i hlt hw hi
  rcases Nat.lt_trichotomy i ys.length with hb | rfl | hb
  · rw [take_append_of_le_length (by omega), take_append_of_le_length (by omega)] at hlt
    rw [List.getElem?_append_left hb] at hi
    exact hlow i hlt hw hi
  · rw [take_left' hlen, take_left' rfl] at hlt
    rw [List.getElem?_concat_length] at hi
    exact htop hlt hw (Option.some.inj hi)
  · rw [List.getElem?_eq_none (by simp; omega)] at hi
    cases hi

/-- With no borrow, `setSBBFlagsN` does what `setSubFlagsN` does. -/
theorem sbbStatus_false (hw₀ : 0 < w.bits) (x y : BitVec w.bits) :
    sbbStatus x y false = diffStatus x y false := by
  have hcf := (sbbStatus_cf_iff x y false w.bits_le).mpr (by simp)
  have hof := (sbbStatus_of_iff x y false hw₀).mpr (by simp)
  unfold diffStatus
  rw [← hcf, ← hof]
  rfl

theorem Executed.subtracted (h : Executed SubForm .sub w x y r s t) :
    r = subBorrow x y false ∧ ofFlags t.eflags = sbbStatus x y false := by
  obtain ⟨hr, hf⟩ := h.result subForm_valid rfl
  refine ⟨hr.trans (BitVec.sub_zero _).symm, ?_⟩
  rw [hf, sbbStatus_false w.bits_pos]
  exact ofFlags_into _ _

theorem Executed.subtracted_borrow (h : Executed SubForm .sbb w x y r s t) :
    r = subBorrow x y (carryFlag s.eflags) ∧
      ofFlags t.eflags = sbbStatus x y (carryFlag s.eflags) := by
  obtain ⟨hr, hf⟩ := h.result subForm_valid rfl
  refine ⟨hr, ?_⟩
  rw [hf]
  exact ofFlags_into _ _

/-- One more digit, computed with the borrow `c` that the flags had: the whole is right exactly if
the lower digits and their borrow were, and the borrow does not meet `0xffffffff`. -/
theorem differs_concat_iff {c : Bool} :
    Differs (xs ++ [x]) (ys ++ [y]) (rs ++ [subBorrow x y c]) (sbbStatus x y c).cf ↔
      Differs xs ys rs c ∧ (natOf xs < natOf ys → w = .dword → y ≠ BitVec.allOnes w.bits) := by
  have hcf := sbbStatus_cf_iff x y c w.bits_le
  have hword : w.bits = 32 ↔ w = .dword := by cases w <;> decide
  constructor
  · intro h
    obtain ⟨hlow, hdigit⟩ := h.of_concat
    obtain rfl := subBorrow_inj w.bits_pos hdigit
    refine ⟨hlow, fun hlt hw hy => ?_⟩
    have hborrow : (sbbStatus x y _).cf = borrowOut x y _ :=
      h.natOf_eq.2.trans (hlow.concat x y).natOf_eq.2.symm
    exact hcf.mp hborrow ⟨decide_eq_true hlt, hword.mpr hw, hy⟩
  · rintro ⟨hlow, hsafe⟩
    have hborrow := hcf.mpr fun ⟨hc, hw, hy⟩ => by
      rw [hlow.natOf_eq.2, decide_eq_true_iff] at hc
      exact hsafe hc (hword.mp hw) hy
    rw [hborrow]
    exact hlow.concat x y

/-- A run is a run on the low digits, which is right exactly if it is safe, and a last
instruction. -/
theorem subChain_split (h : Chain SubForm .sub .sbb w xs ys rs t) :
    ∃ xs' ys' rs' c x y, xs'.length = rs'.length ∧ ys'.length = rs'.length ∧
      (Differs xs' ys' rs' c ↔ CarrySafe w xs' ys') ∧ xs = xs' ++ [x] ∧ ys = ys' ++ [y] ∧
      rs = rs' ++ [subBorrow x y c] ∧ ofFlags t.eflags = sbbStatus x y c := by
  induction h with
  | @first x y r s t h =>
    obtain ⟨rfl, hf⟩ := h.subtracted
    refine ⟨[], [], [], false, x, y, rfl, rfl, iff_of_true Differs.nil ?_, rfl, rfl, rfl, hf⟩
    intro i _ _ hi
    cases hi
  | @next xs ys rs x y r s t u _ hquiet hlast ih =>
    obtain ⟨xs', ys', rs', c, x', y', hxs, hys, hsafe, rfl, rfl, rfl, hflags⟩ := ih
    obtain ⟨rfl, hf⟩ := hlast.subtracted_borrow
    have hcarry : carryFlag t.eflags = (sbbStatus x' y' c).cf := by
      rw [quiet_eflags hquiet]
      exact congrArg cf hflags
    rw [hcarry] at hf ⊢
    refine ⟨_, _, _, _, x, y, ?_, ?_, ?_, rfl, rfl, rfl, hf⟩
    · simp [hxs]
    · simp [hys]
    · rw [differs_concat_iff, carrySafe_concat (hxs.trans hys.symm), hsafe]

/-- **Subtraction of several words.**  Digits, borrow and overflow are those of the whole
difference exactly if no borrow meets a digit at the edge of its range. -/
theorem subChain_difference (h : Chain SubForm .sub .sbb w xs ys rs t) :
    xs.length = rs.length ∧ ys.length = rs.length ∧
      (((natOf rs : Int) = (natOf xs - natOf ys) % (2 ^ (w.bits * rs.length) : Nat) ∧
          (ofFlags t.eflags).cf = decide (natOf xs < natOf ys) ∧
          (ofFlags t.eflags).of = decide (¬ Fits (w.bits * rs.length) (intOf xs - intOf ys))) ↔
        CarrySafe w xs ys ∧ OverflowSafe w xs ys) := by
  obtain ⟨xs', ys', rs', c, x, y, hxs, hys, hsafe, rfl, rfl, rfl, hflags⟩ := subChain_split h
  have hlx : (xs' ++ [x]).length = (rs' ++ [subBorrow x y c]).length := by simp [hxs]
  have hly : (ys' ++ [y]).length = (rs' ++ [subBorrow x y c]).length := by simp [hys]
  have hover : OverflowSafe w (xs' ++ [x]) (ys' ++ [y]) ↔
      (natOf xs' < natOf ys' → y ≠ BitVec.intMax w.bits) := by
    unfold OverflowSafe
    simp
  have hof : Differs xs' ys' rs' c → ((sbbStatus x y c).of =
      decide (¬ Fits (w.bits * (rs' ++ [subBorrow x y c]).length)
        (intOf (xs' ++ [x]) - intOf (ys' ++ [y]))) ↔
      OverflowSafe w (xs' ++ [x]) (ys' ++ [y])) := by
    intro hlow
    have hfits := hlow.fits_iff w.bits_pos x y
    have htrue : decide (¬ Fits (w.bits * (rs'.length + 1)) (intOf (xs' ++ [x]) - intOf (ys' ++ [y]))) =
        subOverflow x y c := decide_eq_decide.mpr (not_congr hfits)
    rw [length_append, length_singleton, htrue, sbbStatus_of_iff x y c w.bits_pos, hover,
      hlow.natOf_eq.2, decide_eq_true_iff, not_and]
  rw [hflags, carrySafe_concat (hxs.trans hys.symm), ← hsafe, ← differs_concat_iff]
  refine ⟨hlx, hly, ?_⟩
  constructor
  · rintro ⟨hdigits, hcf, hofEq⟩
    have hall := Differs.of_natOf_eq hlx hly hdigits
    rw [← hcf] at hall
    exact ⟨hall, (hof (differs_concat_iff.mp hall).1).mp hofEq⟩
  · rintro ⟨hall, hsafeOf⟩
    obtain ⟨hdigits, hcf⟩ := hall.natOf_eq
    exact ⟨hdigits, hcf, (hof (differs_concat_iff.mp hall).1).mpr hsafeOf⟩

/-- SUB EAX, ECX and SBB EDX, EBX, with a borrow from the first digits. -/
def subtractingTwoWords (edx ebx : U32) : Machine :=
  .running [0x29, 0xC8, 0x19, 0xDA]
    (fun r => if r = ECX then 1 else if r = EDX then edx else if r = EBX then ebx else 0) 2

theorem subChain_difference_safe :
    (ofFlags (after step (after step (subtractingTwoWords 5 2))).eflags).cf = false ∧
      (natOf [0xffffffff#32, 2#32] : Int) = (natOf [0#32, 5#32] - natOf [1#32, 2#32]) % (2 ^ 64 : Nat) := by
  have hsub : Executed SubForm .sub .dword 0 1 0xffffffff (subtractingTwoWords 5 2) _ :=
    executed_of_step (.sub_rm32_r32 _) (by decide +kernel)
  have hsbb : Executed SubForm .sbb .dword 5 2 2 (after step (subtractingTwoWords 5 2)) _ :=
    executed_of_step (.sbb_rm32_r32 _) (by decide +kernel)
  obtain ⟨-, -, hiff⟩ := subChain_difference (.next (.first hsub) .refl hsbb)
  have hsafe : CarrySafe .dword [0, 5] [1, 2] := by
    rintro (_ | _ | i) _ _ hi
    · cases hi
    · cases hi
    · cases hi
  obtain ⟨hdigits, hcf, -⟩ := hiff.mpr ⟨hsafe, fun _ h => by cases h⟩
  exact ⟨hcf.trans (by decide), hdigits⟩

/-- `0 - 0xffffffff_00000001`: there is a borrow, and SBB reports none. -/
theorem subChain_borrow_lost :
    Chain SubForm .sub .sbb .dword [0, 0] [1, 0xffffffff] [0xffffffff, 0]
        (after step (after step (subtractingTwoWords 0 0xffffffff))) ∧
      natOf [0#32, 0#32] < natOf [1#32, 0xffffffff#32] ∧
      (ofFlags (after step (after step (subtractingTwoWords 0 0xffffffff))).eflags).cf = false := by
  have hsub : Executed SubForm .sub .dword 0 1 0xffffffff (subtractingTwoWords 0 0xffffffff) _ :=
    executed_of_step (.sub_rm32_r32 _) (by decide +kernel)
  have hsbb : Executed SubForm .sbb .dword 0 0xffffffff 0 (after step (subtractingTwoWords 0 0xffffffff)) _ :=
    executed_of_step (.sbb_rm32_r32 _) (by decide +kernel)
  exact ⟨.next (.first hsub) .refl hsbb, by decide, by decide +kernel⟩

end IshGo.I386
