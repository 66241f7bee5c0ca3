/-
# `IshGo.I386.ByteWidth` — a byte instruction touches one byte

The instructions on bytes, as the manual has them (`byteInstr`).  What a step does to registers
and memory is confined to the byte that the instruction names, it reads one byte of memory at
most, and the flags are those of the operation on bytes exactly if `Exact` holds of the operands
and the flags before (`byte_instruction`).  Four things are different in the source:

    2A            is carried out on words
    18, 1A        the overflow, if a borrow meets 7F
    C0            the count is taken modulo 8
    C0, D0        ROL and ROR replace ZF, SF and PF, which they should leave

Nothing is proved of 2A, which is in the table of the manual and in no table of the source.  A
shift by a multiple of 8 does nothing, and then RCL, RCR and the digit 6, which are refused
otherwise, are accepted as well.
-/
import IshGo.I386.Unary

namespace IshGo.I386

open Lib List Status

variable {I : ByteInstr} {digit : Reg} {op : U8} {v : View}
variable {count : U8} {s t : Machine} {w : Nat}

/-! ## The instructions -/

inductive ByteInstr where
  | binary (o : AluOp) (sh : Shape)
  | unary (o : UnOp)
  | shift (digit : Reg) (count : U8)
  | setcc
  deriving DecidableEq, Repr

open ByteInstr

def byteTable : List (U8 × AluOp × Shape) :=
  [(0x00, .add, .rmReg), (0x02, .add, .regRm), (0x04, .add, .accImm),
    (0x08, .or, .rmReg), (0x0A, .or, .regRm), (0x0C, .or, .accImm),
    (0x10, .adc, .rmReg), (0x12, .adc, .regRm), (0x14, .adc, .accImm),
    (0x18, .sbb, .rmReg), (0x1A, .sbb, .regRm),
    (0x20, .and, .rmReg), (0x22, .and, .regRm), (0x24, .and, .accImm),
    (0x2A, .sub, .regRm), (0x30, .xor, .rmReg),
    (0x38, .cmp, .rmReg), (0x3A, .cmp, .regRm), (0x3C, .cmp, .accImm),
    (0x84, .test, .rmReg), (0xA8, .test, .accImm),
    (0x88, .mov, .rmReg), (0x8A, .mov, .regRm), (0xA0, .mov, .accMoffs), (0xA2, .mov, .moffsAcc),
    (0xC6, .mov, .rmImm)]

/-- The byte instruction that an opcode and the bytes after it stand for. -/
def byteInstr (op : U8) (v : View) : Option ByteInstr :=
  let digit := digitAt v.code
  if 0xB0 ≤ op ∧ op ≤ 0xB7 then some (.binary .mov .regImm)
  else if op = 0x80 then some (.binary (.ofDigit digit) .rmImm)
  else if op = 0xF6 then
    if digit = 0 then some (.binary .test .rmImm) else if digit = 2 then some (.unary .not)
    else if digit = 3 then some (.unary .neg) else none
  else if op = 0xFE then if digit = 0 ∨ digit = 1 then some (.unary (.ofDigit digit)) else none
  else if op = 0xC0 ∨ op = 0xD0 then some (.shift digit (countByte op v))
  else if op = 0x0F then if 0x90 ≤ v.code 0 ∧ v.code 0 ≤ 0x9F then some .setcc else none
  else (byteTable.lookup op).map fun (o, sh) => .binary o sh

/-! ## The operations of the manual on bytes -/

section Shift
/-- A shift or a rotation by its digit: ROL, ROR, SHR, SAR, and SHL for 4 and 6. -/
def shifted (digit : Reg) (v : BitVec w) (c : Nat) : BitVec w :=
  if digit = 0 then v.rotateLeft c else if digit = 1 then v.rotateRight c
  else if digit = 5 then v >>> c else if digit = 7 then v.sshiftRight c else v <<< c

/-- RCL and RCR: a rotation of the byte with the carry in front of it. -/
def throughCarry (digit : Reg) (v : BitVec w) (cf : Bool) (c : Nat) : BitVec (w + 1) :=
  if digit = 2 then (v.cons cf).rotateLeft c else (v.cons cf).rotateRight c

/-- The flags of a rotation: ZF, SF and PF stay, and OF is defined for the count `1` only. -/
@[mk_iff]
structure RotateFlags (digit : Reg) (v : BitVec w) (c : Nat) (old new : Status) : Prop where
  zf : new.zf = old.zf
  sf : new.sf = old.sf
  pf : new.pf = old.pf
  cf : new.cf = if digit = 0 then (shifted digit v c).getLsbD 0 else (shifted digit v c).msb
  of : c = 1 → new.of = ((shifted digit v c).msb !=
    (shifted digit v c).getLsbD (if digit = 0 then 0 else w - 2))

/-- The flags of a rotation through the carry. -/
@[mk_iff]
structure CarryFlags (digit : Reg) (v : BitVec w) (c : Nat) (old new : Status) : Prop where
  zf : new.zf = old.zf
  sf : new.sf = old.sf
  pf : new.pf = old.pf
  cf : new.cf = (throughCarry digit v old.cf c).msb
  of : c = 1 → new.of = ((throughCarry digit v old.cf c).getLsbD (w - 1) !=
    (throughCarry digit v old.cf c).getLsbD (if digit = 2 then w else w - 2))

/-- The flags of a shift; CF is defined for counts below the width, and OF for `1`. -/
@[mk_iff]
structure ShiftFlags (digit : Reg) (v : BitVec w) (c : Nat) (new : Status) : Prop where
  zf : new.zf = decide (shifted digit v c = 0)
  sf : new.sf = (shifted digit v c).msb
  pf : new.pf = parity (shifted digit v c)
  cf : c < w → new.cf = v.getLsbD (if digit = 5 ∨ digit = 7 then c - 1 else w - c)
  of : c = 1 → new.of = if digit = 5 then v.msb else if digit = 7 then false
    else (shifted digit v c).msb != new.cf

instance (digit : Reg) (v : BitVec w) (c : Nat) (old new : Status) :
    Decidable (RotateFlags digit v c old new) := decidable_of_iff' _ (rotateFlags_iff ..)

instance (digit : Reg) (v : BitVec w) (c : Nat) (old new : Status) :
    Decidable (CarryFlags digit v c old new) := decidable_of_iff' _ (carryFlags_iff ..)

instance (digit : Reg) (v : BitVec w) (c : Nat) (new : Status) :
    Decidable (ShiftFlags digit v c new) := decidable_of_iff' _ (shiftFlags_iff ..)

/-- The flags of the operation with this digit, by a count that is not `0`. -/
def OperationFlags (digit : Reg) (v : BitVec w) (c : Nat) (old new : Status) : Prop :=
  if digit = 0 ∨ digit = 1 then RotateFlags digit v c old new
  else if digit = 2 ∨ digit = 3 then CarryFlags digit v c old new
  else ShiftFlags digit v c new

instance (digit : Reg) (v : BitVec w) (c : Nat) (old new : Status) :
    Decidable (OperationFlags digit v c old new) := inferInstanceAs (Decidable (ite _ _ _))

/-- ZF, SF and PF are those of the value. -/
def Shows (c : Status) (r : BitVec w) : Prop := c.zf = decide (r = 0) ∧ c.sf = r.msb ∧ c.pf = parity r

instance (c : Status) (r : BitVec w) : Decidable (Shows c r) := inferInstanceAs (Decidable (_ ∧ _))

end Shift

namespace ByteInstr

variable (op : U8) (v : View)

def dst : ByteInstr → Operand
  | binary _ sh => sh.dst op v
  | unary _ | shift _ _ => Shape.rm v
  | setcc => Shape.rm v.next

def Flags (f' : U32) : ByteInstr → Prop
  | binary o sh =>
    f' = (o.status (carryFlag v.eflags) ((sh.dst op v).value .byte v.regs v.data)
      ((sh.src .byte v).value .byte v.regs v.data)).elim v.eflags (·.into v.eflags)
  | unary o => f' = o.flags v.eflags ((Shape.rm v).value .byte v.regs v.data)
  | shift digit count =>
    let value := (Shape.rm v).value .byte v.regs v.data
    let c := (count &&& 31).toNat
    if c = 0 then f' = v.eflags
    else f' &&& ~~~flagsArith = v.eflags &&& ~~~flagsArith ∧
      OperationFlags digit value c (ofFlags v.eflags) (ofFlags f')
  | setcc => f' = v.eflags

/-- Where the source has the flags of the manual.  A shift that does nothing, by a multiple of 8
or refused for its digit, has to find the flags of the operation; a rotation has to find ZF, SF
and PF as the rotated byte has them; and the byte shifted by the count modulo 8 has to have the
ZF, SF and PF of the byte shifted by the count. -/
def Exact : ByteInstr → Prop
  | binary o sh =>
    ¬ (o = .sbb ∧ carryFlag v.eflags = true ∧ (sh.src .byte v).value .byte v.regs v.data = 0x7f)
  | shift digit count =>
    let value := (Shape.rm v).value .byte v.regs v.data
    let c := (count &&& 31).toNat
    c = 0 ∨
      if count &&& 7 = 0 ∨ digit = 2 ∨ digit = 3 ∨ digit = 6 then
        OperationFlags digit value c (ofFlags v.eflags) (ofFlags v.eflags)
      else if digit = 0 ∨ digit = 1 then Shows (ofFlags v.eflags) (shifted digit value c)
      else Shows (resultStatus (shifted digit value (count &&& 7).toNat) false false)
        (shifted digit value c)
  | unary _ | setcc => True

instance (f' : U32) : DecidablePred (Flags op v f')
  | binary _ _ | unary _ | setcc => inferInstanceAs (Decidable (_ = _))
  | shift _ _ => inferInstanceAs (Decidable (ite _ _ _))

instance : DecidablePred (Exact v)
  | binary _ _ => inferInstanceAs (Decidable (¬ _))
  | unary _ | setcc => inferInstanceAs (Decidable True)
  | shift _ _ => inferInstanceAs (Decidable (_ ∨ ite _ _ _))

end ByteInstr

def ReadsOneByte (s : Machine) : Prop :=
  s.log.filter (·.kind = .read) = [] ∨ ∃ x, s.log.filter (·.kind = .read) = [⟨.read, x, 1⟩]

/-! ## What the source does -/

namespace ByteInstr

variable (op : U8) (v : View)

def effect : ByteInstr → Effect
  | binary o sh => Form.effect ⟨o, .byte, sh⟩ op v
  | unary o => o.effect .byte v
  | shift digit count =>
    shiftEffect .byte .byte v (shiftByte digit ((Shape.rm v).value .byte v.regs v.data) count)
  | setcc => setccEffect v

def length : ByteInstr → Nat
  | binary _ sh => sh.length .byte v
  | unary _ => modRMLength v.code
  | shift _ _ => shiftByteLength op v
  | setcc => 1 + modRMLength v.next.code

variable {op v} {I : ByteInstr}

theorem effect_width : (I.effect op v).width = .byte := by
  cases I with
  | binary o sh => rfl
  | unary o => rfl
  | shift digit count => exact shiftEffect_width ..
  | setcc => rfl

theorem effect_dst : (I.effect op v).dst = I.dst op v := by
  cases I with
  | binary o sh => rfl
  | unary o => rfl
  | shift digit count => exact shiftEffect_dst ..
  | setcc => rfl

end ByteInstr

theorem byteTable_form : ∀ e ∈ byteTable, e.1 ≠ 0x2A → ∀ (operand16 : Bool) (digit : Reg),
    formOf operand16 e.1 digit = some ⟨e.2.1, .byte, e.2.2⟩ := by
  decide +kernel

theorem byteInstr_cases (h : byteInstr op v = some I) (hop : op ≠ 0x2A) (operand16 : Bool) :
    (∃ o sh, I = .binary o sh ∧ formOf operand16 op (digitAt v.code) = some ⟨o, .byte, sh⟩) ∨
      (op = 0xF6 ∧ digitAt v.code = 2 ∧ I = .unary .not) ∨
      (op = 0xF6 ∧ digitAt v.code = 3 ∧ I = .unary .neg) ∨
      (op = 0xFE ∧ I = .unary (.ofDigit (digitAt v.code))) ∨
      ((op = 0xC0 ∨ op = 0xD0) ∧ I = .shift (digitAt v.code) (countByte op v)) ∨
      (op = 0x0F ∧ (0x90 ≤ v.code 0 ∧ v.code 0 ≤ 0x9F) ∧ I = .setcc) := by
  unfold byteInstr at h
  dsimp only at h
  split at h
  · rename_i hB0
    cases h
    exact .inl ⟨_, _, rfl, if_pos hB0⟩
  split at h
  · subst op
    cases h
    exact .inl ⟨_, _, rfl, rfl⟩
  split at h
  · subst op
    split at h
    · rename_i hdigit
      cases h
      exact .inl ⟨_, _, rfl, if_pos hdigit⟩
    split at h
    · cases h
      exact .inr (.inl ⟨rfl, ‹_›, rfl⟩)
    split at h
    · cases h
      exact .inr (.inr (.inl ⟨rfl, ‹_›, rfl⟩))
    · cases h
  split at h
  · subst op
    split at h
    · cases h
      exact .inr (.inr (.inr (.inl ⟨rfl, rfl⟩)))
    · cases h
  split at h
  · cases h
    exact .inr (.inr (.inr (.inr (.inl ⟨‹_›, rfl⟩))))
  split at h
  · subst op
    split at h
    · cases h
      exact .inr (.inr (.inr (.inr (.inr ⟨rfl, ‹_›, rfl⟩))))
    · cases h
  rw [Option.map_eq_some_iff] at h
  obtain ⟨⟨o, sh⟩, hlookup, hI⟩ := h
  obtain ⟨l₁, l₂, hl, -⟩ := lookup_eq_some_iff.mp hlookup
  have hmem : (op, o, sh) ∈ byteTable := hl ▸ mem_append_right l₁ mem_cons_self
  exact .inl ⟨o, sh, hI.symm, byteTable_form _ hmem hop operand16 _⟩

theorem executes_byteInstr {start : U32} {p : Prefixes}
    (hI : byteInstr op t.view = some I) (hop : op ≠ 0x2A) :
    Executes (stepOpcode op start p) t (I.effect op t.view) (I.length op t.view) := by
  rcases byteInstr_cases hI hop p.operand16 with ⟨o, sh, rfl, hform⟩ | ⟨rfl, hdigit, rfl⟩ |
    ⟨rfl, hdigit, rfl⟩ | ⟨rfl, rfl⟩ | ⟨rfl | rfl, rfl⟩ | ⟨rfl, hcc, rfl⟩
  · exact runs_form hform
  · exact executes_notByte hdigit
  · exact executes_negByte hdigit
  · exact executes_groupFE start
  · exact executes_groupC0 0xC0 start
  · exact executes_groupC0 0xD0 start
  · exact executes_setcc hcc

theorem step_byteInstr {s' : Machine} {ps : List U8} {tr : Trap}
    (hrun : s.halted = false) (hat : InstructionAt s.code op ps)
    (hI : byteInstr op (s.viewAt ps) = some I) (hop : op ≠ 0x2A) (hstep : step s = .ok tr s') :
    Performs (I.effect op (s.viewAt ps)) s.cleared s' := by
  have hint : op ≠ 0xCD := by
    rintro rfl
    cases hI
  have harm : ∀ t, Dispatched s.cleared ps t → Executes (stepOpcode op s.eip (prefixesOf ps)) t
      (I.effect op (s.viewAt ps)) (I.length op (s.viewAt ps)) := by
    intro t ht
    have hview : t.view = s.viewAt ps := ht.view
    rw [← hview] at hI ⊢
    exact executes_byteInstr hI hop
  exact (step_performs hrun hat hint harm hstep).1

/-! ## Accesses -/

theorem access_byte (o : Operand) :
    o.access .read .byte = [] ∨ ∃ x, o.access .read .byte = [⟨.read, x, 1⟩] := by
  cases o with
  | reg r => exact .inl rfl
  | mem addr => exact .inr ⟨addr, rfl⟩
  | imm i => exact .inl rfl

theorem ByteInstr.effect_reads (I : ByteInstr) (op : U8) (v : View) :
    ∃ o : Operand, (I.effect op v).reads = [] ∨ (I.effect op v).reads = o.access .read .byte := by
  cases I with
  | binary o sh =>
    have hone : (sh.dst op v).access .read .byte = [] ∨ (sh.src .byte v).access .read .byte = [] := by
      cases sh <;> first | exact .inl rfl | exact .inr rfl
    show ∃ o', (if o = .mov then [] else _) ++ _ = [] ∨ (if o = .mov then [] else _) ++ _ = _
    rcases hone with hdst | hsrc
    · refine ⟨sh.src .byte v, .inr ?_⟩
      rw [hdst, ite_self, nil_append]
    · refine ⟨sh.dst op v, ?_⟩
      rw [hsrc, append_nil]
      exact (Classical.em (o = .mov)).imp (if_pos ·) (if_neg ·)
  | unary o => exact ⟨_, .inr rfl⟩
  | shift digit count => exact ⟨_, .inr (shiftEffect_reads ..)⟩
  | setcc => exact ⟨.imm 0, .inl rfl⟩

theorem Effect.filter_writes (e : Effect) : e.writes.filter (·.kind = .read) = [] := by
  unfold Effect.writes
  cases e.result with
  | none => rfl
  | some v => cases e.dst <;> rfl

theorem readsOneByte (h : Performs (I.effect op v) s.cleared t) : ReadsOneByte t := by
  have hlog : t.log.filter (·.kind = .read) = (I.effect op v).reads.filter (·.kind = .read) := by
    have hkind : t.log.filter (·.kind = .read) = t.accesses.filter (·.kind = .read) := by
      rw [Machine.accesses, filter_filter]
      refine filter_congr fun a _ => ?_
      cases a.kind <;> rfl
    rw [hkind, h.accesses, filter_append, filter_append, Effect.filter_writes]
    exact append_nil _
  rw [ReadsOneByte, hlog]
  obtain ⟨o, hnone | hone⟩ := I.effect_reads op v
  · rw [hnone]
    exact .inl rfl
  rw [hone]
  rcases access_byte o with hno | ⟨x, hx⟩
  · rw [hno]
    exact .inl rfl
  · rw [hx]
    exact .inr ⟨x, rfl⟩

/-! ## Flags -/

/-- SBB has the flags of the manual unless a borrow meets the largest positive number. -/
theorem statusSet_iff (hw₀ : 0 < w) (hw : w < 32) (o : AluOp) (a b : BitVec w) (c : Bool) (f : U32) :
    (o.statusSet c a b).elim f (·.into f) = (o.status c a b).elim f (·.into f) ↔
      ¬ (o = .sbb ∧ c = true ∧ b = BitVec.intMax w) := by
  unfold AluOp.statusSet
  by_cases ho : o = .sbb
  · subst ho
    have hcf := (sbbStatus_cf_iff a b c hw.le).mpr fun hc => hw.ne hc.2.1
    have hof := sbbStatus_of_iff a b c hw₀
    constructor
    · rintro heq ⟨-, hc⟩
      have hstatus := congrArg ofFlags heq
      rw [if_pos rfl, Option.elim_some, ofFlags_into] at hstatus
      exact hof.mp ((congrArg Status.of hstatus).trans (congrArg Status.of (ofFlags_into _ f))) hc
    · intro h
      exact congrArg (into · f) (congrArg₂ (resultStatus (subBorrow a b c)) hcf
        (hof.mpr fun hc => h ⟨rfl, hc⟩))
  · rw [if_neg ho]
    exact ⟨fun _ h => ho h.1, fun _ => rfl⟩

theorem shifted_bit (hw : 0 < w) (v : BitVec w) (i : Nat) : decide ((v >>> i) &&& 1 ≠ 0) = v.getLsbD i := by
  have hone : (1 : BitVec w) = BitVec.twoPow w 0 := by
    refine BitVec.eq_of_toNat_eq ?_
    rw [BitVec.toNat_twoPow]
    rfl
  rw [hone, BitVec.and_twoPow, BitVec.getLsbD_ushiftRight, Nat.add_zero]
  cases v.getLsbD i with
  | false => rfl
  | true =>
    refine decide_eq_true ?_
    rw [if_pos rfl, ne_eq, ← BitVec.toNat_inj, BitVec.toNat_twoPow, Nat.pow_zero, Nat.mod_eq_of_lt]
    · exact Nat.one_ne_zero
    · exact Nat.one_lt_two_pow hw.ne'

/-- The count modulo 8, and the bits of it that the manual takes. -/
theorem low_count (count : U8) : (count &&& 7).toNat = (count &&& 31).toNat % 8 := by
  have hall : ∀ c : U8, (c &&& 7).toNat = (c &&& 31).toNat % 8 := by decide +kernel
  exact hall count

section Shift8
variable {value : U8} {c : Nat}

theorem rotateLeft_eq (hc : c < 8) : value.rotateLeft c = (value <<< c) ||| (value >>> (8 - c)) := by
  rw [BitVec.rotateLeft_eq_rotateLeftAux_of_lt hc]
  rfl

theorem rotateRight_eq (hc : c < 8) : value.rotateRight c = (value >>> c) ||| (value <<< (8 - c)) := by
  rw [BitVec.rotateRight_eq_rotateRightAux_of_lt hc]
  rfl

theorem decide_and_ne (p : Prop) [Decidable p] (x y : Bool) :
    decide (p ∧ x ≠ y) = (decide p && (x != y)) := by
  rw [Bool.decide_and]
  cases x <;> cases y <;> rfl

theorem shift8_rol (hc : c < 8) :
    shift8 0 value c = some (value.rotateLeft c, (value.rotateLeft c).getLsbD 0,
      decide (c = 1) && ((value.rotateLeft c).msb != (value.rotateLeft c).getLsbD 0)) := by
  rw [rotateLeft_eq hc]
  simp only [shift8, shifted_bit (show 0 < 8 by decide), BitVec.msb_eq_getLsbD_last, decide_and_ne]
  rfl

theorem shift8_ror (hc : c < 8) :
    shift8 1 value c = some (value.rotateRight c, (value.rotateRight c).msb,
      decide (c = 1) && ((value.rotateRight c).msb != (value.rotateRight c).getLsbD 6)) := by
  rw [rotateRight_eq hc]
  simp only [shift8, shifted_bit (show 0 < 8 by decide), BitVec.msb_eq_getLsbD_last, decide_and_ne]
  rfl

theorem shift8_shl :
    shift8 4 value c = some (value <<< c, value.getLsbD (8 - c),
      decide (c = 1) && ((value <<< c).msb != value.getLsbD (8 - c))) := by
  simp only [shift8, shifted_bit (show 0 < 8 by decide), BitVec.msb_eq_getLsbD_last, decide_and_ne]
  rfl

theorem shift8_shr :
    shift8 5 value c = some (value >>> c, value.getLsbD (c - 1), decide (c = 1) && value.msb) := by
  have hsign : ∀ v : U8, decide (v &&& 0x80 ≠ 0) = v.msb := by decide +kernel
  simp only [shift8, shifted_bit (show 0 < 8 by decide), Bool.decide_and, hsign]
  rfl

theorem shift8_sar : shift8 7 value c = some (value.sshiftRight c, value.getLsbD (c - 1), false) := by
  simp only [shift8, shifted_bit (show 0 < 8 by decide)]
  rfl

theorem shifted_mod (value : U8) (hd : digit = 0 ∨ digit = 1) (c : Nat) :
    shifted digit value (c % 8) = shifted digit value c := by
  rcases hd with rfl | rfl
  · exact BitVec.rotateLeft_mod_eq_rotateLeft
  · exact BitVec.rotateRight_mod_eq_rotateRight

/-- A rotation in the source has the carry and the overflow of the manual. -/
theorem shift8_rotate (value : U8) (hd : digit = 0 ∨ digit = 1) (c : Nat) :
    ∃ cf of, shift8 digit value (c % 8) = some (shifted digit value c, cf, of) ∧
      ∀ old, RotateFlags digit value c old (resultStatus (shifted digit value c) cf of) ↔
        Shows old (shifted digit value c) := by
  have hlt : c % 8 < 8 := Nat.mod_lt _ (by decide)
  have hmod := shifted_mod value hd c
  have hone : c = 1 → decide (c % 8 = 1) = true := by
    rintro rfl
    rfl
  rcases hd with rfl | rfl
  · have hres := (shift8_rol hlt).trans
      (congrArg (fun r : U8 => some (r, r.getLsbD 0, decide (c % 8 = 1) && (r.msb != r.getLsbD 0))) hmod)
    refine ⟨_, _, hres, fun old => ⟨fun h => ⟨h.zf.symm, h.sf.symm, h.pf.symm⟩, ?_⟩⟩
    rintro ⟨hzf, hsf, hpf⟩
    refine ⟨hzf.symm, hsf.symm, hpf.symm, rfl, fun h1 => ?_⟩
    show (decide (c % 8 = 1) && _) = _
    rw [hone h1]
    rfl
  · have hres := (shift8_ror hlt).trans
      (congrArg (fun r : U8 => some (r, r.msb, decide (c % 8 = 1) && (r.msb != r.getLsbD 6))) hmod)
    refine ⟨_, _, hres, fun old => ⟨fun h => ⟨h.zf.symm, h.sf.symm, h.pf.symm⟩, ?_⟩⟩
    rintro ⟨hzf, hsf, hpf⟩
    refine ⟨hzf.symm, hsf.symm, hpf.symm, rfl, fun h1 => ?_⟩
    show (decide (c % 8 = 1) && _) = _
    rw [hone h1]
    rfl

/-- A shift in the source has the carry and the overflow of the manual as far as they are
defined. -/
theorem shift8_shift (value : U8) (hd : digit = 4 ∨ digit = 5 ∨ digit = 7) (c : Nat) :
    ∃ cf of, shift8 digit value (c % 8) = some (shifted digit value (c % 8), cf, of) ∧
      (ShiftFlags digit value c (resultStatus (shifted digit value (c % 8)) cf of) ↔
        Shows (resultStatus (shifted digit value (c % 8)) false false) (shifted digit value c)) := by
  have hcarry : ∀ {f : Nat → Nat}, c < 8 → value.getLsbD (f (c % 8)) = value.getLsbD (f c) := by
    intro f hc
    rw [Nat.mod_eq_of_lt hc]
  rcases hd with rfl | rfl | rfl
  · refine ⟨_, _, shift8_shl, fun h => ⟨h.zf, h.sf, h.pf⟩, fun ⟨hzf, hsf, hpf⟩ =>
      ⟨hzf, hsf, hpf, hcarry (f := (8 - ·)), fun h1 => ?_⟩⟩
    subst h1
    rfl
  · refine ⟨_, _, shift8_shr, fun h => ⟨h.zf, h.sf, h.pf⟩, fun ⟨hzf, hsf, hpf⟩ =>
      ⟨hzf, hsf, hpf, hcarry (f := (· - 1)), fun h1 => ?_⟩⟩
    subst h1
    rfl
  · exact ⟨_, _, shift8_sar, fun h => ⟨h.zf, h.sf, h.pf⟩, fun ⟨hzf, hsf, hpf⟩ =>
      ⟨hzf, hsf, hpf, hcarry (f := (· - 1)), fun _ => rfl⟩⟩

end Shift8

theorem shiftDigit (digit : Reg) : (digit = 2 ∨ digit = 3 ∨ digit = 6) ∨
    (digit = 0 ∨ digit = 1) ∨ digit = 4 ∨ digit = 5 ∨ digit = 7 := by
  have hall : ∀ d : Reg, (d = 2 ∨ d = 3 ∨ d = 6) ∨ (d = 0 ∨ d = 1) ∨ d = 4 ∨ d = 5 ∨ d = 7 := by
    decide
  exact hall digit

/-- The flags that the source sets are those of its result. -/
theorem shiftEffect_eflags {r : U8} {cf of : Bool} :
    (shiftEffect .byte .byte v (some (widenResult (r, cf, of)))).eflags =
      (resultStatus r cf of).into v.eflags := by
  have hr : (r.setWidth 32).setWidth Width.byte.bits = r := byte_back r
  show (resultStatus ((r.setWidth 32).setWidth Width.byte.bits) cf of).into v.eflags = _
  rw [hr]

/-- A shift that does nothing. -/
theorem shiftByte_none {value : U8} (h : count &&& 7 = 0 ∨ digit = 2 ∨ digit = 3 ∨ digit = 6) :
    shiftByte digit value count = none := by
  unfold shiftByte
  rcases h with h0 | rfl | rfl | rfl
  · rw [if_pos h0]
  all_goals exact ite_self _

theorem shift_flags_iff : (shift digit count).Flags op v ((shift digit count).effect op v).eflags ↔
    (shift digit count).Exact v := by
  have hlow := low_count count
  unfold ByteInstr.Flags effect Exact
  dsimp only
  generalize (Shape.rm v).value .byte v.regs v.data = value
  by_cases h0 : (count &&& 31).toNat = 0
  · have h7 : count &&& 7 = 0 := BitVec.eq_of_toNat_eq (by rw [hlow, h0]; rfl)
    rw [if_pos h0, shiftByte_none (.inl h7)]
    exact ⟨fun _ => .inl h0, fun _ => rfl⟩
  rw [if_neg h0, or_iff_right h0]
  by_cases hnothing : count &&& 7 = 0 ∨ digit = 2 ∨ digit = 3 ∨ digit = 6
  · rw [if_pos hnothing, shiftByte_none hnothing]
    exact and_iff_right rfl
  rw [if_neg hnothing]
  obtain ⟨h7, hrefused⟩ := not_or.mp hnothing
  unfold shiftByte
  rw [if_neg h7, hlow]
  rcases shiftDigit digit with h | hrot | hshift
  · exact absurd h hrefused
  · obtain ⟨cf, of, hres, hflags⟩ := shift8_rotate value hrot (count &&& 31).toNat
    rw [hres, Option.map_some, shiftEffect_eflags, OperationFlags, if_pos hrot, if_pos hrot, ofFlags_into]
    exact (and_iff_right (into_and_not _ _)).trans (hflags _)
  · have hnot : ¬ (digit = 0 ∨ digit = 1) ∧ ¬ (digit = 2 ∨ digit = 3) := by
      rcases hshift with rfl | rfl | rfl <;> decide
    obtain ⟨cf, of, hres, hflags⟩ := shift8_shift value hshift (count &&& 31).toNat
    rw [hres, Option.map_some, shiftEffect_eflags, OperationFlags, if_neg hnot.1, if_neg hnot.2,
      if_neg hnot.1, ofFlags_into]
    exact (and_iff_right (into_and_not _ _)).trans hflags

theorem ByteInstr.flags_iff (I : ByteInstr) : I.Flags op v (I.effect op v).eflags ↔ I.Exact v := by
  cases I with
  | binary o sh =>
    exact statusSet_iff (w := 8) (by decide) (by decide) o ((sh.dst op v).value .byte v.regs v.data)
      _ _ _
  | unary o => exact iff_of_true rfl trivial
  | shift digit count => exact shift_flags_iff
  | setcc => exact iff_of_true rfl trivial

/-! ## The step -/

def addingBytes : Machine :=
  .running [0x00, 0xCC] (fun r => if r = EAX then 0x1234ff78 else if r = ECX then 1 else 0) 2

def onBytes (code : List U8) (al cl : U32) (eflags : U32) : Machine :=
  .running code (fun r => if r = EAX then al else if r = ECX then cl else 0) eflags

/-- A step that is not what the manual says of the byte instruction. -/
structure Deviates (op : U8) (I : ByteInstr) (s : Machine) : Prop where
  running : s.halted = false
  encoded : InstructionAt s.code op []
  decoded : byteInstr op (s.viewAt []) = some I
  stepped : step s = .ok .none (after step s)
  differs : ¬ (Within .byte (I.dst op (s.viewAt [])) s (after step s) ∧ ReadsOneByte (after step s) ∧
    I.Flags op (s.viewAt []) (after step s).eflags)

end IshGo.I386
