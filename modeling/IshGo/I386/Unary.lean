/-
# `IshGo.I386.Unary` — the instructions with one operand

INC and DEC, NOT and NEG of a byte, the shifts and rotations, and SETcc: what their arms do, as an
`Effect`.  INC and DEC of the register in an opcode clear the carry; the other encodings keep it.  The shifts of the source are the functions `shift8` and `shiftN`; how they compare with
the operations of the manual is the business of `IshGo.I386.ByteWidth`.
-/
import IshGo.I386.Binary

namespace IshGo.I386

open Lib Shape Machine

variable {n : Nat} {operand16 : Bool} {start : U32}
variable {t : Machine}

/-! ## INC, DEC, NOT and NEG -/

inductive UnOp where
  | inc
  | dec
  | not
  | neg
  deriving DecidableEq, Repr

namespace UnOp

variable {w : Nat}

def apply (a : BitVec w) : UnOp → BitVec w
  | inc => a + 1
  | dec => a - 1
  | not => ~~~a
  | neg => 0 - a

/-- The flags; INC and DEC keep the carry, and NOT keeps all. -/
def status (c : Bool) (a : BitVec w) : UnOp → Option Status
  | inc => some { sumStatus a 1 false with cf := c }
  | dec => some { diffStatus a 1 false with cf := c }
  | not => none
  | neg => some (diffStatus 0 a false)

def flags (op : UnOp) (f : U32) (a : BitVec w) : U32 := (op.status (carryFlag f) a).elim f (·.into f)

def effect (op : UnOp) (w : Width) (v : View) : Effect :=
  let dst := rm v
  let a := dst.value w v.regs v.data
  ⟨w, dst, some (op.apply a), op.flags v.eflags a, dst.access .read w⟩

end UnOp

theorem carryFlag_eq (f : U32) : carryFlag f = f.getLsbD 0 := and_bit_ne f (by decide)

theorem into_keep_carry (c : Status) (f : U32) : (c.into f &&& ~~~flagCF) ||| (f &&& flagCF) =
    { c with cf := carryFlag f }.into f := by
  have hcf := getLsbD_flag (show flagCF = BitVec.twoPow 32 0 from rfl) (by decide)
  refine BitVec.eq_of_getLsbD_eq fun i hi => ?_
  simp only [BitVec.getLsbD_or, BitVec.getLsbD_and, BitVec.getLsbD_not, hcf, Status.getLsbD_into,
    carryFlag_eq, hi]
  by_cases h0 : i = 0
  · subst h0
    simp
  · simp [h0]

section Arms
variable {Q : Unit → Machine → Prop}

theorem ensures_keepCarry {c : Status} {x : CpuM Unit}
    (hx : ∀ Q, Ensures x t Q ↔ Q () (t.withFlags (c.into t.eflags))) :
    Ensures (keepCarry x) t Q ↔ Q () (t.withFlags ({ c with cf := carryFlag t.eflags }.into t.eflags)) := by
  unfold keepCarry
  simp only [ensures_bind]
  rw [ensures_getFlags, hx, ensures_getFlags, ensures_setFlags, withFlags_eflags, into_keep_carry]
  rfl

/-- Flags first and then the result: the end of INC, DEC and NEG. -/
theorem unary_done (op : UnOp) (w : Width) {f : U32} {r : BitVec w.bits}
    (hf : f = op.flags t.eflags ((rm t.view).value w t.regs t.mem.data))
    (hr : r = op.apply ((rm t.view).value w t.regs t.mem.data)) :
    (op.effect w t.view).Done (modRMLength t.code) t
      ((((t.fetched (modRMLength t.code)).loaded w (rm t.view)).withFlags f).stored w r
        (rm t.view)) := by
  subst hf hr
  refine ⟨⟨rfl, rfl, rfl, ?_⟩, rfl⟩
  rw [accesses_stored, accesses_withFlags, accesses_loaded, accesses_fetched, ← List.append_assoc]
  rfl

def UnOp.ofDigit (digit : Reg) : UnOp := if digit = 0 then .inc else .dec

theorem executes_groupFE (start : U32) :
    Executes (groupFE start) t ((UnOp.ofDigit (digitAt t.code)).effect .byte t.view)
      (modRMLength t.code) := by
  unfold Executes groupFE
  rw [ensures_bind]
  refine ensures_decodeModRM ?_
  rw [ensures_bind, ensures_require]
  intro _
  rw [ensures_bind]
  refine ensures_readRM8 ?_
  by_cases h : digitAt t.code = 0
  · rw [if_pos (show (modRMAt t.regs t.code).reg = 0 from h), ensures_bind, UnOp.ofDigit, if_pos h]
    have hflags := fun Q => ensures_setAddFlagsN (w := 8)
      (s := (t.fetched (modRMLength t.code)).loaded .byte (rm t.view)) (Q := Q)
      (a := (rm t.view).value .byte t.regs t.mem.data) (b := 1)
      (r := ((rm t.view).value .byte t.regs t.mem.data + 1).setWidth 32) (by decide) (by decide)
    refine (ensures_keepCarry hflags).mpr (ensures_writeRM8 ?_)
    exact unary_done .inc .byte rfl rfl
  rw [if_neg (show ¬ (modRMAt t.regs t.code).reg = 0 from h), ensures_bind, UnOp.ofDigit, if_neg h]
  have hflags := fun Q => ensures_setSubFlagsN (w := 8)
    (s := (t.fetched (modRMLength t.code)).loaded .byte (rm t.view)) (Q := Q)
    (a := (rm t.view).value .byte t.regs t.mem.data) (b := 1)
    (r := ((rm t.view).value .byte t.regs t.mem.data - 1).setWidth 32) (by decide) (by decide)
    (byte_back _)
  refine (ensures_keepCarry hflags).mpr (ensures_writeRM8 ?_)
  exact unary_done .dec .byte rfl rfl

theorem executes_groupFF (start : U32) (hdigit : digitAt t.code = 0 ∨ digitAt t.code = 1) :
    Executes (groupFF start) t ((UnOp.ofDigit (digitAt t.code)).effect .dword t.view)
      (modRMLength t.code) := by
  unfold Executes groupFF
  rw [ensures_bind]
  refine ensures_decodeModRM ?_
  rw [ensures_bind]
  refine ensures_readRM (modRMAt_current _ _) ?_
  rcases hdigit with h | h
  · rw [if_pos (show (modRMAt t.regs t.code).reg = 0 from h), ensures_bind, h]
    refine (ensures_keepCarry fun _ => ensures_setAddFlags).mpr (ensures_writeRM ?_)
    exact unary_done .inc .dword rfl rfl
  have hreg : (modRMAt t.regs t.code).reg = 1 := h
  rw [if_neg (by rw [hreg]; decide), if_pos hreg, ensures_bind, h]
  refine (ensures_keepCarry fun _ => ensures_setSubFlags).mpr (ensures_writeRM ?_)
  exact unary_done .dec .dword rfl rfl

theorem into_clear_carry (c : Status) (f : U32) : c.into f &&& ~~~flagCF = { c with cf := false }.into f := by
  have hcf := getLsbD_flag (show flagCF = BitVec.twoPow 32 0 from rfl) (by decide)
  refine BitVec.eq_of_getLsbD_eq fun i hi => ?_
  simp only [BitVec.getLsbD_and, BitVec.getLsbD_not, hcf, Status.getLsbD_into, hi]
  by_cases h0 : i = 0
  · simp [h0]
  · simp [h0]

/-- INC and DEC of the register in the opcode, which clear the carry. -/
def UnOp.shortEffect (o : UnOp) (op : U8) (v : View) : Effect :=
  let a := v.regs (opReg op)
  ⟨.dword, .reg (opReg op), some (o.apply a), (o.status false a).elim v.eflags (·.into v.eflags), []⟩

theorem executes_incReg (op : U8) : Executes (incReg op) t (UnOp.inc.shortEffect op t.view) 0 := by
  unfold Executes incReg putFlag
  simp only [ensures_bind]
  rw [ensures_getReg, ensures_setReg, ensures_setAddFlags,
    ensures_updateFlags, if_neg Bool.false_ne_true, withFlags_eflags, into_clear_carry]
  exact ⟨⟨rfl, rfl, rfl, rfl⟩, (BitVec.add_zero _).symm⟩

theorem executes_decReg (op : U8) : Executes (decReg op) t (UnOp.dec.shortEffect op t.view) 0 := by
  unfold Executes decReg putFlag
  simp only [ensures_bind]
  rw [ensures_getReg, ensures_setReg, ensures_setSubFlags,
    ensures_updateFlags, if_neg Bool.false_ne_true, withFlags_eflags, into_clear_carry]
  exact ⟨⟨rfl, rfl, rfl, rfl⟩, (BitVec.add_zero _).symm⟩

theorem executes_notByte (hdigit : digitAt t.code = 2) :
    Executes (groupF6F7 0xF6 start operand16) t (UnOp.not.effect .byte t.view) (modRMLength t.code) := by
  have hreg : (modRMAt t.regs t.code).reg = 2 := hdigit
  unfold Executes groupF6F7
  rw [ensures_bind]
  refine ensures_decodeModRM ?_
  rw [if_neg (by simp), if_pos rfl, ensures_bind]
  refine ensures_readRM8 ?_
  unfold unaryGroup notRM
  rw [if_neg (by rw [hreg]; decide), if_pos hreg, if_pos rfl]
  refine ensures_writeRM8 ?_
  rw [BitVec.setWidth_not (by decide), byte_back]
  exact unary_done .not .byte rfl rfl

theorem executes_negByte (hdigit : digitAt t.code = 3) :
    Executes (groupF6F7 0xF6 start operand16) t (UnOp.neg.effect .byte t.view) (modRMLength t.code) := by
  have hreg : (modRMAt t.regs t.code).reg = 3 := hdigit
  have hneg : ∀ a : U8, (-(a.setWidth 32)).setWidth 8 = 0 - a := by
    intro a
    rw [BitVec.setWidth_neg_of_le (by decide), byte_back]
    exact (BitVec.zero_sub a).symm
  unfold Executes groupF6F7
  rw [ensures_bind]
  refine ensures_decodeModRM ?_
  rw [if_neg (by simp), if_pos rfl, ensures_bind]
  refine ensures_readRM8 ?_
  unfold unaryGroup negRM
  rw [if_neg (by rw [hreg]; decide), if_neg (by rw [hreg]; decide), if_pos hreg, if_pos rfl, ensures_bind,
    show (0 : U32) = (0 : U8).setWidth 32 from rfl,
    ensures_setSubFlagsN (by decide) (by decide) (hneg _)]
  exact ensures_writeRM8 (unary_done .neg .byte rfl (hneg _))

end Arms

/-! ## Shifts and rotations -/

/-- The effect of a shift that the source has computed, or none if it computes nothing.  The
operand is read in the width `r`. -/
def shiftEffect (w r : Width) (v : View) : Option (U32 × Bool × Bool) → Effect
  | none => ⟨w, rm v, none, v.eflags, (rm v).access .read r⟩
  | some (result, cf, of) =>
    ⟨w, rm v, some (result.setWidth w.bits),
      (resultStatus (result.setWidth w.bits) cf of).into v.eflags, (rm v).access .read r⟩

section ShiftEffect
variable (w r : Width) (v : View)

theorem shiftEffect_width : ∀ res, (shiftEffect w r v res).width = w
  | none => rfl
  | some (_, _, _) => rfl

theorem shiftEffect_dst : ∀ res, (shiftEffect w r v res).dst = rm v
  | none => rfl
  | some (_, _, _) => rfl

theorem shiftEffect_reads : ∀ res, (shiftEffect w r v res).reads = (rm v).access .read r
  | none => rfl
  | some (_, _, _) => rfl

end ShiftEffect

theorem shift_kept (w r : Width) (n : Nat) :
    (shiftEffect w r t.view none).Done n t ((t.fetched n).loaded r (rm t.view)) := by
  refine ⟨⟨rfl, rfl, rfl, ?_⟩, rfl⟩
  rw [accesses_loaded, accesses_fetched]
  rfl

theorem shift_stored (w r : Width) (n : Nat) (result : U32) (cf of : Bool) :
    (shiftEffect w r t.view (some (result, cf, of))).Done n t
      ((((t.fetched n).loaded r (rm t.view)).stored w (result.setWidth w.bits)
        (rm t.view)).withFlags ((resultStatus (result.setWidth w.bits) cf of).into t.eflags)) := by
  refine ⟨⟨rfl, rfl, rfl, ?_⟩, rfl⟩
  rw [accesses_withFlags, accesses_stored, accesses_loaded, accesses_fetched, ← List.append_assoc]
  rfl

def widenResult : U8 × Bool × Bool → U32 × Bool × Bool := fun (result, cf, of) => (result.setWidth 32, cf, of)

theorem ensures_storeShift8 : ∀ {res : Option (U8 × Bool × Bool)},
    Ensures (storeShift8 (modRMAt t.regs t.code) start res)
      ((t.fetched n).loaded .byte (rm t.view))
      fun _ u => (shiftEffect .byte .byte t.view (res.map widenResult)).Done n t u
  | none => ensures_throw.mpr trivial
  | some (result, cf, of) => by
      have hdone := @shift_stored t .byte .byte n (result.setWidth 32) cf of
      rw [show (result.setWidth 32).setWidth Width.byte.bits = result from byte_back result] at hdone
      unfold storeShift8
      rw [ensures_bind]
      refine ensures_writeRM8 ?_
      rw [setShiftFlagsN, ensures_updateFlags, shiftFlagsN_eq _ (by decide) (by decide)
        (byte_back result)]
      exact hdone

def shiftByte (digit : Reg) (value count : U8) : Option (U32 × Bool × Bool) :=
  if count &&& 7 = 0 then none else (shift8 digit value (count &&& 7).toNat).map widenResult

def countByte (op : U8) (v : View) : U8 := if op = 0xC0 then v.code (modRMLength v.code) else 1

def shiftByteLength (op : U8) (v : View) : Nat :=
  if op = 0xC0 then modRMLength v.code + 1 else modRMLength v.code

theorem ensures_shiftByte {count : U8} :
    Ensures (do
      let value ← readRM8 (modRMAt t.regs t.code)
      if count &&& 7 = 0 then return ()
      else
        storeShift8 (modRMAt t.regs t.code) start (shift8 (digitAt t.code) value (count &&& 7).toNat))
      (t.fetched n)
      fun _ u => (shiftEffect .byte .byte t.view (shiftByte (digitAt t.code)
        ((rm t.view).value .byte t.regs t.mem.data) count)).Done n t u := by
  rw [ensures_bind]
  refine ensures_readRM8 ?_
  unfold shiftByte
  by_cases h0 : count &&& 7 = 0
  · rw [if_pos h0, if_pos h0]
    exact ensures_pure.mpr (shift_kept .byte .byte n)
  · rw [if_neg h0, if_neg h0]
    exact ensures_storeShift8

theorem executes_groupC0 (op : U8) (start : U32) :
    Executes (groupC0 op start) t (shiftEffect .byte .byte t.view (shiftByte (digitAt t.code)
      ((rm t.view).value .byte t.regs t.mem.data) (countByte op t.view)))
      (shiftByteLength op t.view) := by
  unfold Executes groupC0 countByte shiftByteLength
  rw [ensures_bind]
  refine ensures_decodeModRM ?_
  by_cases h : op = 0xC0
  · simp only [if_pos h]
    rw [ensures_bind]
    refine ensures_fetch8 ?_
    rw [fetched_fetched, fetched_code]
    exact ensures_shiftByte
  · simp only [if_neg h]
    exact ensures_shiftByte

theorem ensures_storeShiftN :
    ∀ {res : Option (U32 × Bool × Bool)},
    Ensures (storeShiftN operand16 (modRMAt t.regs t.code) start res)
      ((t.fetched n).loaded .dword (rm t.view))
      fun _ u => (shiftEffect (.ofPrefix operand16) .dword t.view res).Done n t u
  | none => ensures_throw.mpr trivial
  | some (result, cf, of) => by
      have hdone := @shift_stored t (.ofPrefix operand16) .dword n result cf of
      unfold storeShiftN
      rw [ensures_bind]
      refine ensures_writeRMv ?_
      cases operand16 with
      | true =>
        rw [if_pos rfl, setShiftFlagsN, ensures_updateFlags, shiftFlagsN_eq _ (by decide) (by decide) rfl]
        exact hdone
      | false =>
        rw [if_neg Bool.false_ne_true, setShiftFlags, ensures_updateFlags, shiftFlags_eq]
        rw [show result.setWidth (Width.ofPrefix false).bits = result from BitVec.setWidth_eq _]
          at hdone ⊢
        exact hdone

def countWord (op : U8) (v : View) : Nat :=
  if op = 0xC1 then (v.code (modRMLength v.code) &&& 31).toNat
  else if op = 0xD3 then (byteOf v.regs 1 &&& 31).toNat
  else 1

def shiftWordLength (op : U8) (v : View) : Nat :=
  if op = 0xC1 then modRMLength v.code + 1 else modRMLength v.code

theorem ensures_shiftCount {op : U8} {Q : Nat → Machine → Prop}
    (h : Q (countWord op t.view) (t.fetched (shiftWordLength op t.view))) :
    Ensures (shiftCount op) (t.fetched (modRMLength t.code)) Q := by
  unfold shiftCount
  unfold countWord shiftWordLength at h
  by_cases hC1 : op = 0xC1
  · simp only [if_pos hC1] at h ⊢
    rw [ensures_bind]
    refine ensures_fetch8 (ensures_pure.mpr ?_)
    rw [fetched_fetched, fetched_code]
    exact h
  simp only [if_neg hC1] at h ⊢
  by_cases hD3 : op = 0xD3
  · rw [if_pos hD3] at h ⊢
    exact ensures_pure.mpr h
  · rw [if_neg hD3] at h ⊢
    exact ensures_pure.mpr h

def shiftWord (operand16 : Bool) (digit : Reg) (word : U32) (count : Nat) : Option (U32 × Bool × Bool) :=
  if count = 0 then none
  else shiftN (if operand16 then 16 else 32) digit (if operand16 then word &&& 0xffff else word) count

theorem executes_groupC1 (op : U8) (start : U32) (operand16 : Bool) :
    Executes (groupC1 op start operand16) t (shiftEffect (.ofPrefix operand16) .dword t.view
      (shiftWord operand16 (digitAt t.code) ((rm t.view).value .dword t.regs t.mem.data)
        (countWord op t.view))) (shiftWordLength op t.view) := by
  unfold Executes groupC1 shiftWord
  simp only [ensures_bind]
  refine ensures_decodeModRM ?_
  refine ensures_shiftCount ?_
  refine ensures_readRM (modRMAt_current _ _) ?_
  by_cases h0 : countWord op t.view = 0
  · rw [if_pos h0, if_pos h0]
    exact ensures_pure.mpr (shift_kept (.ofPrefix operand16) .dword _)
  · rw [if_neg h0, if_neg h0]
    exact ensures_storeShiftN

/-! ## SETcc -/

/-- What the instruction after the second byte of an opcode is computed from. -/
def View.next (v : View) : View := { v with code := fun i => v.code (1 + i) }

def setccEffect (v : View) : Effect :=
  ⟨.byte, rm v.next, some (if conditionOf v.eflags (v.code 0 &&& 0xf) then 1 else 0), v.eflags, []⟩

theorem executes_setcc (h : 0x90 ≤ t.code 0 ∧ t.code 0 ≤ 0x9F) :
    Executes (stepExtended start) t (setccEffect t.view) (1 + modRMLength t.view.next.code) := by
  unfold Executes stepExtended
  rw [ensures_bind]
  refine ensures_fetch8 ?_
  rw [if_neg (by bv_omega), if_neg (by bv_omega), if_pos h]
  unfold setcc
  rw [ensures_bind]
  refine ensures_decodeModRM ?_
  rw [ensures_bind, ensures_condition]
  refine ensures_writeRM8 ?_
  rw [code_fetched, fetched_fetched]
  refine ⟨⟨rfl, rfl, rfl, ?_⟩, rfl⟩
  rw [accesses_stored, accesses_fetched]
  exact congrArg (· ++ t.accesses) (List.append_nil _).symm

end IshGo.I386
