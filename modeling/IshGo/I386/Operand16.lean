/-
# `IshGo.I386.Operand16` — the operand-size prefix

With the prefix 66 an instruction works on halves of words: its immediates have two bytes, the
upper half of a register stays, and two bytes of memory are written.  `layout16` is the table of
the encodings, from the manual.  An arm of the source has to ask for the prefix; those in
`honouring` do, or refuse it, or write nothing (`operand16_discipline`).  Those in `ignoring` do
not: for each of them there is a machine in which the instruction goes wrong.  Those of
`lengthening` among them take four bytes for an immediate of two, so no step of theirs is right.
For the others it depends on the operands whether the 32-bit operation leaves the upper half of
its destination alone; nothing is said about that here.  A prefix 67 is let through only where
the instruction has no operand in memory: with one its address would have 16 bits.
-/
import IshGo.I386.Unary

namespace IshGo.I386

open Lib

variable {op : U8} {s t : Machine} {v : View}

/-! ## Encodings -/

/-- The bytes after an opcode: a ModRM byte with its address or not, and `rest` more. -/
structure Layout where
  modRM : Bool
  rest : Nat
  deriving DecidableEq, Repr

namespace Layout

def length (L : Layout) (code : Nat → U8) : Nat := (if L.modRM then modRMLength code else 0) + L.rest

def addressed (L : Layout) (v : View) : Operand :=
  if L.modRM then Shape.rm v
  else if L.rest = 4 then .mem (immAt .dword v.code 0 + v.base)
  else .reg EAX

/-- The instruction has an operand in memory, by its ModRM byte or by an offset. -/
def inMemory (L : Layout) (v : View) : Bool := if L.modRM then v.code 0 < 0xC0 else L.rest = 4

end Layout

/-- The opcodes with a ModRM byte and nothing after it: the register forms, TEST, XCHG, MOV, and
the shifts by `1` and by CL. -/
def modRMOpcodes : List U8 :=
  [0x01, 0x03, 0x09, 0x0B, 0x11, 0x13, 0x19, 0x1B, 0x21, 0x23, 0x29, 0x2B, 0x31, 0x33, 0x39, 0x3B,
    0x85, 0x87, 0x89, 0x8B, 0xD1, 0xD3]

def accumulatorOpcodes : List U8 := [0x05, 0x0D, 0x15, 0x1D, 0x25, 0x2D, 0x35, 0x3D, 0xA9]

/-- The 16-bit encodings of MOV, of arithmetic and logic, INC, DEC, NOT, NEG, XCHG and the
shifts. -/
def layout16 (op : U8) (digit : Reg) : Option Layout :=
  if modRMOpcodes.contains op then some ⟨true, 0⟩
  else if accumulatorOpcodes.contains op then some ⟨false, 2⟩
  else if 0x40 ≤ op ∧ op ≤ 0x4F then some ⟨false, 0⟩
  else if 0x91 ≤ op ∧ op ≤ 0x97 then some ⟨false, 0⟩
  else if 0xB8 ≤ op ∧ op ≤ 0xBF then some ⟨false, 2⟩
  else if op = 0xA1 ∨ op = 0xA3 then some ⟨false, 4⟩
  else if op = 0x81 ∨ op = 0xC7 then some ⟨true, 2⟩
  else if op = 0x83 ∨ op = 0xC1 then some ⟨true, 1⟩
  else if op = 0xF7 then
    if digit = 0 then some ⟨true, 2⟩ else if digit = 2 ∨ digit = 3 then some ⟨true, 0⟩ else none
  else if op = 0xFF then if digit = 0 ∨ digit = 1 then some ⟨true, 0⟩ else none
  else none

/-- The instruction after the prefixes `ps` has operands of 16 bits, and addresses of 32 bits if
it has any. -/
def Encodes16 (ps : List U8) (op : U8) (v : View) (L : Layout) : Prop :=
  0x66 ∈ ps ∧ (0x67 ∈ ps → L.inMemory v = false) ∧ layout16 op (digitAt v.code) = some L

def Shape.layout (w : Width) : Shape → Layout
  | rmReg | regRm => ⟨true, 0⟩
  | accImm | regImm => ⟨false, w.bytes⟩
  | rmImm => ⟨true, w.bytes⟩
  | rmImm8 => ⟨true, 1⟩
  | accMoffs | moffsAcc => ⟨false, 4⟩

theorem Shape.layout_length (w : Width) (v : View) (sh : Shape) :
    (sh.layout w).length v.code = sh.length w v := by
  cases sh with
  | rmReg | regRm | rmImm | rmImm8 => rfl
  | accImm | regImm | accMoffs | moffsAcc => exact Nat.zero_add _

/-! ## Halves of words -/

/-- The upper halves of the registers are the same, and so is the memory except for two bytes. -/
structure Halfwords (o : Operand) (s t : Machine) : Prop where
  upper : ∀ r, t.regs r >>> 16 = s.regs r >>> 16
  data : ∀ x, ¬ o.Covers .word x → t.mem.data x = s.mem.data x
  mem : t.mem = { s.mem with data := t.mem.data }

theorem regMask_word (o : Operand) (r : Reg) : o.regMask .word r = 0xffff ∨ o.regMask .word r = 0 := by
  cases o with
  | reg b => exact (Classical.em (r = b)).imp (if_pos ·) (if_neg ·)
  | mem | imm => exact .inr rfl

theorem upper_of_masked {m a b : U32} (hm : m = 0xffff ∨ m = 0) (h : a &&& ~~~m = b &&& ~~~m) :
    a >>> 16 = b >>> 16 := by
  have hones : (~~~m) >>> 16 = 0xffff := by
    rcases hm with rfl | rfl <;> decide
  have hup : ∀ x : U32, (x &&& ~~~m) >>> 16 = x >>> 16 := by
    intro x
    have hlt : (x >>> 16).toNat < 2 ^ 16 := by
      rw [BitVec.toNat_ushiftRight, Nat.shiftRight_eq_div_pow]
      omega
    rw [BitVec.ushiftRight_and_distrib, hones]
    refine BitVec.eq_of_toNat_eq ?_
    exact (Nat.and_two_pow_sub_one_eq_mod _ 16).trans (Nat.mod_eq_of_lt hlt)
  rw [← hup a, h, hup b]

theorem Within.halfwords (w : Width) (op : U8) (sh : Shape)
    (h : Within .word (sh.dst op v) s t) : Halfwords ((sh.layout w).addressed v) s t := by
  refine ⟨fun r => upper_of_masked (regMask_word _ r) (h.regs r), fun x hx => ?_, h.mem⟩
  refine h.data x fun hcovers => hx ?_
  cases sh with
  | rmReg | rmImm | rmImm8 | moffsAcc => exact hcovers
  | regRm | accImm | regImm | accMoffs => exact hcovers.elim

theorem Performs.halfwords {F : Form}
    (hF : F.width = .word ∨ F.op.writes = false) (h : Performs (F.effect op v) s t) :
    Halfwords ((F.shape.layout F.width).addressed v) s t := by
  refine Within.halfwords F.width op F.shape ?_
  rcases hF with hw | hkept
  · have hwithin := h.within
    rw [show (F.effect op v).width = .word from hw] at hwithin
    exact hwithin
  have hres : (F.effect op v).result = none := if_neg (by rw [hkept]; exact Bool.false_ne_true)
  have hregs : t.regs = s.regs := by rw [h.regs, Effect.regs, hres]; rfl
  have hmem : t.mem = s.mem := by rw [h.mem, Effect.data, hres]; rfl
  exact ⟨fun r => by rw [hregs], fun x _ => by rw [hmem], by rw [hmem]⟩

/-! ## The arms that ask for the prefix -/

/-- MOV, SBB, OR, AND and XOR with the accumulator, the groups 81 and 83, and the shifts.  CMP and
TEST work on words and write nothing; NOT, NEG and 1D are refused. -/
def honouring : List U8 :=
  [0x89, 0x8B, 0xC7, 0x19, 0x1B, 0x0D, 0x25, 0x35, 0x81, 0x83, 0x39, 0x3B, 0x85, 0xF7, 0x1D, 0xC1,
    0xD1, 0xD3]

/-- ADD, ADC, SUB, CMP and TEST of the accumulator with an immediate, and MOV of an immediate to a
register: the immediate always has four bytes. -/
def lengthening : List U8 :=
  [0x05, 0x15, 0x2D, 0x3D, 0xA9, 0xB8, 0xB9, 0xBA, 0xBB, 0xBC, 0xBD, 0xBE, 0xBF]

def HalfForm (op : U8) (digit : Reg) (L : Layout) : Prop :=
  ∃ F, formOf true op digit = some F ∧ F.shape.layout F.width = L ∧
    (F.width = .word ∨ F.op.writes = false)

instance (op : U8) (digit : Reg) (L : Layout) : Decidable (HalfForm op digit L) :=
  match h : formOf true op digit with
  | none => isFalse fun ⟨F, hF, _⟩ => by
      rw [h] at hF
      cases hF
  | some F => decidable_of_iff (F.shape.layout F.width = L ∧ (F.width = .word ∨ F.op.writes = false))
      ⟨fun hF => ⟨F, h, hF⟩, fun ⟨F', hF', hprops⟩ => by
        rw [h] at hF'
        cases hF'
        exact hprops⟩

theorem honouring_cases : ∀ op ∈ honouring, ∀ digit : Reg, ∀ L ∈ layout16 op digit,
    HalfForm op digit L ∨ (op = 0x1D ∨ op = 0xF7 ∧ digit ≠ 0) ∨
      ((op = 0xC1 ∨ op = 0xD1 ∨ op = 0xD3) ∧ L = ⟨true, if op = 0xC1 then 1 else 0⟩) := by
  decide +kernel

theorem lengthening_cases : ∀ op ∈ lengthening, ∀ digit : Reg, layout16 op digit = some ⟨false, 2⟩ ∧
    (formOf true op digit).any (fun F => F.shape.layout F.width = ⟨false, 4⟩) = true := by
  decide +kernel

section Arms
variable {start : U32} {p : Prefixes} {L : Layout}

/-- The instruction has kept to halves of words, and has consumed its own bytes. -/
def Kept16 (L : Layout) (t u : Machine) : Prop :=
  Halfwords (L.addressed t.view) t u ∧ u.eip = t.eip + BitVec.ofNat 32 (L.length t.code)

theorem ensures_halfForm (hp : p.operand16 = true) (h : HalfForm op (digitAt t.code) L) :
    Ensures (stepOpcode op start p) t fun _ u => Kept16 L t u := by
  obtain ⟨F, hF, rfl, hwidth⟩ := h
  rw [← hp] at hF
  refine (runs_form hF).mono fun _ u ⟨hdone, heip⟩ => ⟨hdone.halfwords hwidth, ?_⟩
  rw [heip]
  exact congrArg (t.eip + BitVec.ofNat 32 ·) (Shape.layout_length F.width t.view F.shape).symm

theorem ensures_groupF7_refused {Q : Unit → Machine → Prop} (hdigit : digitAt t.code ≠ 0) :
    Ensures (groupF6F7 0xF7 start true) t Q := by
  unfold groupF6F7
  rw [ensures_bind]
  refine ensures_decodeModRM ?_
  rw [if_pos ⟨rfl, rfl⟩]
  unfold test16
  rw [ensures_bind, ensures_require]
  exact fun hzero => absurd (of_decide_eq_true hzero) hdigit

theorem ensures_shift16 (op : U8) :
    Ensures (groupC1 op start true) t fun _ u => Kept16 ⟨true, if op = 0xC1 then 1 else 0⟩ t u := by
  refine (executes_groupC1 op start true).mono fun _ u ⟨hdone, heip⟩ => ⟨?_, ?_⟩
  · have hwithin := hdone.within
    rw [shiftEffect_width, shiftEffect_dst] at hwithin
    exact Within.halfwords .word op .rmReg hwithin
  rw [heip]
  unfold shiftWordLength Layout.length
  by_cases h : op = 0xC1
  · simp only [if_pos h]
    rfl
  · simp only [if_neg h]
    rfl

theorem ensures_honouring (hp : p.operand16 = true) (hop : op ∈ honouring)
    (hL : layout16 op (digitAt t.code) = some L) :
    Ensures (stepOpcode op start p) t fun _ u => Kept16 L t u := by
  rcases honouring_cases op hop _ L hL with hform | (rfl | ⟨rfl, hdigit⟩) | ⟨rfl | rfl | rfl, rfl⟩
  · exact ensures_halfForm hp hform
  · exact ensures_throw.mpr trivial
  · show Ensures (groupF6F7 0xF7 start p.operand16) t _
    rw [hp]
    exact ensures_groupF7_refused hdigit
  all_goals
    show Ensures (groupC1 _ start p.operand16) t _
    rw [hp]
    exact ensures_shift16 _

theorem ensures_lengthening (hp : p.operand16 = true) (hop : op ∈ lengthening)
    (hL : layout16 op (digitAt t.code) = some L) :
    Ensures (stepOpcode op start p) t
      fun _ u => u.eip = t.eip + BitVec.ofNat 32 (2 + L.length t.code) := by
  obtain ⟨hshort, hform⟩ := lengthening_cases op hop (digitAt t.code)
  obtain ⟨F, hF, hlayout⟩ := Option.any_eq_true _ _ |>.mp hform
  cases hL.symm.trans hshort
  rw [← hp] at hF
  refine (runs_form hF).mono fun _ u ⟨_, heip⟩ => ?_
  have hlength : F.shape.length F.width t.view = 4 := by
    rw [← Shape.layout_length, of_decide_eq_true hlayout]
    rfl
  rw [heip, hlength]
  rfl

end Arms

/-! ## The step -/

/-- The step from `s` is one of the 16-bit encoding `L`: it consumes the bytes of the encoding,
keeps the upper halves of the registers, and changes two bytes of memory at most, those that the
instruction addresses. -/
def Disciplined (ps : List U8) (L : Layout) (s u : Machine) : Prop :=
  u.eip = s.eip + BitVec.ofNat 32 (ps.length + 1 + L.length (s.viewAt ps).code) ∧
    Halfwords (L.addressed (s.viewAt ps)) s u

section Step
variable {ps : List U8} {L : Layout} {u : Machine} {n : Nat}
  (hfetched : Dispatched s.cleared ps t)
include hfetched

theorem Kept16.disciplined (hkept : Kept16 L t u) : Disciplined ps L s { u with steps := n } := by
  obtain ⟨hhalf, heip⟩ := hkept
  have hview : t.view = s.viewAt ps := hfetched.view
  have hcode : t.code = (s.viewAt ps).code := congrArg View.code hview
  unfold Disciplined
  rw [← hcode, ← hview]
  refine ⟨?_, fun r => ?_, fun x hx => ?_, ?_⟩
  · rw [BitVec.ofNat_add, ← BitVec.add_assoc]
    exact heip.trans (congrArg (· + _) hfetched.eip)
  · exact (hhalf.upper r).trans (congrArg (fun regs : Reg → U32 => regs r >>> 16) hfetched.regs)
  · exact (hhalf.data x hx).trans (congrArg (·.data x) hfetched.mem)
  · exact hhalf.mem.trans (congrArg (fun m : Memory => { m with data := u.mem.data }) hfetched.mem)

theorem not_disciplined_of_long (heip : u.eip = t.eip + BitVec.ofNat 32 (2 + L.length t.code)) :
    ¬ Disciplined ps L s { u with steps := n } := by
  rintro ⟨hright, -⟩
  change u.eip = _ at hright
  have hcode : t.code = (s.viewAt ps).code := congrArg View.code hfetched.view
  rw [heip, hfetched.eip, hcode, BitVec.ofNat_add (ps.length + 1), ← BitVec.add_assoc,
    Nat.add_comm 2, BitVec.ofNat_add _ 2, ← BitVec.add_assoc] at hright
  exact absurd (BitVec.add_right_eq_self.mp hright) (by decide)

end Step

/-- With the prefix 66, an instruction of `honouring` fails, or its step is one of the 16-bit
encoding; an instruction of `lengthening` fails, or its step is not. -/
theorem operand16_discipline {s s' : Machine} {ps : List U8} {op : U8} {tr : Trap} {L : Layout}
    (hrun : s.halted = false) (hat : InstructionAt s.code op ps)
    (hL : Encodes16 ps op (s.viewAt ps) L) (hstep : step s = .ok tr s') :
    (op ∈ honouring → Disciplined ps L s s') ∧ (op ∈ lengthening → ¬ Disciplined ps L s s') := by
  obtain ⟨h66, -, hlayout⟩ := hL
  have hint : op ≠ 0xCD := by
    rintro rfl
    cases hlayout
  have hp : (prefixesOf ps).operand16 = true := by
    rw [prefixesOf_operand16]
    exact decide_eq_true h66
  have hlayoutAt {t : Machine} (ht : Dispatched s.cleared ps t) : layout16 op (digitAt t.code) = some L := by
    rw [show t.code = (s.viewAt ps).code from congrArg View.code ht.view]
    exact hlayout
  refine ⟨fun hop => ?_, fun hop => ?_⟩
  · refine ensures_step (Q := Disciplined ps L s) hrun hat hint (fun t ht => ?_) tr s' hstep
    exact (ensures_honouring hp hop (hlayoutAt ht)).mono fun _ _ hkept => hkept.disciplined ht
  · refine ensures_step (Q := (¬ Disciplined ps L s ·)) hrun hat hint (fun t ht => ?_) tr s' hstep
    exact (ensures_lengthening hp hop (hlayoutAt ht)).mono fun _ _ heip =>
      not_disciplined_of_long ht heip

/-- The code after the prefix 66, with upper halves that differ in EAX and in ECX. -/
def prefixed (code : List U8) (low : U32) : Machine :=
  .running (0x66 :: code) (fun r => if r = EAX then 0x20000 + low else if r = ECX then 0x10000 + low else low) 2

/-- MOV AX, CX, after both of the prefixes 66 and 67. -/
theorem operand16_discipline_mov :
    (after step (prefixed [0x67, 0x89, 0xC8] 5)).eip = 4 ∧
      (after step (prefixed [0x67, 0x89, 0xC8] 5)).regs EAX >>> 16 = 2 := by
  obtain ⟨heip, hhalf⟩ := (operand16_discipline (s := prefixed [0x67, 0x89, 0xC8] 5) rfl
    (show InstructionAt _ 0x89 [0x66, 0x67] by decide)
    ⟨by decide, by decide, show _ = some ⟨true, 0⟩ by decide⟩
    (ok_of_returned (a := .none) (by decide +kernel))).1 (by decide)
  exact ⟨heip, hhalf.upper EAX⟩

/-! ## The arms that do not -/

instance (w : Width) (x : U32) : DecidablePred (Operand.Covers w x)
  | .mem _ => inferInstanceAs (Decidable (_ < _))
  | .reg _ | .imm _ => inferInstanceAs (Decidable False)

/-- What goes wrong: the length, the upper half of a register, or a byte of memory. -/
inductive Symptom where
  | length
  | upper (r : Reg)
  | byte (x : U32)
  deriving DecidableEq, Repr

def Symptom.shows (L : Layout) (s u : Machine) : Symptom → Bool
  | length => u.eip ≠ s.eip + BitVec.ofNat 32 (2 + L.length (s.viewAt [0x66]).code)
  | upper r => u.regs r >>> 16 ≠ s.regs r >>> 16
  | byte x => ¬ (L.addressed (s.viewAt [0x66])).Covers .word x ∧ u.mem.data x ≠ s.mem.data x

/-- An instruction that ignores the prefix: the opcode, a ModRM byte, the lower halves of the
registers, and what goes wrong. -/
structure Ignoring where
  op : U8
  modRM : U8
  low : U32
  symptom : Symptom

def ignoring : List Ignoring :=
  [⟨0x01, 0xC8, 0, .upper EAX⟩, ⟨0x03, 0xC8, 0, .upper ECX⟩, ⟨0x09, 0xC8, 0, .upper EAX⟩,
    ⟨0x0B, 0xC8, 0, .upper ECX⟩, ⟨0x11, 0xC8, 0, .upper EAX⟩, ⟨0x13, 0xC8, 0, .upper ECX⟩,
    ⟨0x21, 0xC8, 0, .upper EAX⟩, ⟨0x23, 0xC8, 0, .upper ECX⟩, ⟨0x29, 0xC8, 0, .upper EAX⟩,
    ⟨0x2B, 0xC8, 0, .upper ECX⟩, ⟨0x31, 0xC8, 0, .upper EAX⟩, ⟨0x33, 0xC8, 0, .upper ECX⟩,
    ⟨0x87, 0xC8, 0, .upper EAX⟩,
    ⟨0x05, 0, 0, .length⟩, ⟨0x15, 0, 0, .length⟩, ⟨0x2D, 0, 0, .length⟩, ⟨0x3D, 0, 0, .length⟩,
    ⟨0xA9, 0, 0, .length⟩,
    ⟨0xB8, 0, 0, .length⟩, ⟨0xB9, 0, 0, .length⟩, ⟨0xBA, 0, 0, .length⟩, ⟨0xBB, 0, 0, .length⟩,
    ⟨0xBC, 0, 0, .length⟩, ⟨0xBD, 0, 0, .length⟩, ⟨0xBE, 0, 0, .length⟩, ⟨0xBF, 0, 0, .length⟩,
    ⟨0xA1, 0, 0, .upper EAX⟩, ⟨0xA3, 0, 0, .byte 2⟩,
    ⟨0x40, 0, 0xffff, .upper EAX⟩, ⟨0x41, 0, 0xffff, .upper ECX⟩, ⟨0x42, 0, 0xffff, .upper EDX⟩,
    ⟨0x43, 0, 0xffff, .upper EBX⟩, ⟨0x44, 0, 0xffff, .upper ESP⟩, ⟨0x45, 0, 0xffff, .upper EBP⟩,
    ⟨0x46, 0, 0xffff, .upper ESI⟩, ⟨0x47, 0, 0xffff, .upper EDI⟩, ⟨0xFF, 0xC0, 0xffff, .upper EAX⟩,
    ⟨0x48, 0, 0, .upper EAX⟩, ⟨0x49, 0, 0, .upper ECX⟩, ⟨0x4A, 0, 0, .upper EDX⟩,
    ⟨0x4B, 0, 0, .upper EBX⟩, ⟨0x4C, 0, 0, .upper ESP⟩, ⟨0x4D, 0, 0, .upper EBP⟩,
    ⟨0x4E, 0, 0, .upper ESI⟩, ⟨0x4F, 0, 0, .upper EDI⟩, ⟨0xFF, 0xC8, 0, .upper EAX⟩,
    ⟨0x91, 0, 0, .upper EAX⟩, ⟨0x92, 0, 0, .upper EAX⟩, ⟨0x93, 0, 0, .upper EAX⟩,
    ⟨0x94, 0, 0, .upper EAX⟩, ⟨0x95, 0, 0, .upper EAX⟩, ⟨0x96, 0, 0, .upper EAX⟩,
    ⟨0x97, 0, 0, .upper EAX⟩]

/-- A step that is not what the 16-bit encoding asks for. -/
structure Deviates16 (op : U8) (L : Layout) (s : Machine) : Prop where
  running : s.halted = false
  encoded : InstructionAt s.code op [0x66]
  layout : Encodes16 [0x66] op (s.viewAt [0x66]) L
  stepped : step s = .ok .none (after step s)
  differs : ¬ Disciplined [0x66] L s (after step s)

theorem Symptom.not_disciplined {L : Layout} {u : Machine} {symptom : Symptom}
    (h : symptom.shows L s u = true) : ¬ Disciplined [0x66] L s u := by
  rintro ⟨heip, hhalf⟩
  cases symptom with
  | length => exact of_decide_eq_true h heip
  | upper r => exact of_decide_eq_true h (hhalf.upper r)
  | byte x =>
    obtain ⟨hout, hne⟩ := of_decide_eq_true h
    exact hne (hhalf.data x hout)

def Ignoring.machine (e : Ignoring) : Machine := prefixed [e.op, e.modRM] e.low

def Ignoring.goesWrong (e : Ignoring) : Bool :=
  decide (InstructionAt e.machine.code e.op [0x66]) &&
    decide (returned step e.machine = some .none) &&
    (layout16 e.op (digitAt (e.machine.viewAt [0x66]).code)).any
      fun L => e.symptom.shows L e.machine (after step e.machine)

theorem ignoring_goesWrong : ignoring.all Ignoring.goesWrong = true := by decide +kernel

theorem layout16_listed {digit : Reg} (h : layout16 op digit ≠ none) :
    op ∈ honouring ∨ op ∈ ignoring.map (·.op) := by
  have hlisted : ∀ op, layout16 op 0 ≠ none → op ∈ honouring ∨ op ∈ ignoring.map (·.op) := by
    decide +kernel
  refine hlisted op ?_
  by_cases hF7 : op = 0xF7
  · subst hF7
    decide
  by_cases hFF : op = 0xFF
  · subst hFF
    decide
  unfold layout16 at h ⊢
  simpa only [if_neg hF7, if_neg hFF] using h

/-- Every opcode of the table is in one of the lists, and those that ignore the prefix go wrong. -/
theorem operand16_ignored :
    (∀ op digit, layout16 op digit ≠ none → op ∈ honouring ∨ op ∈ ignoring.map (·.op)) ∧
      ∀ e ∈ ignoring, ∃ L, Deviates16 e.op L e.machine := by
  refine ⟨fun _ _ => layout16_listed, fun e he => ?_⟩
  have hwrong := List.all_eq_true.mp ignoring_goesWrong e he
  simp only [Ignoring.goesWrong, Bool.and_eq_true, decide_eq_true_eq, Option.any_eq_true] at hwrong
  obtain ⟨⟨hat, hstep⟩, L, hL, hshows⟩ := hwrong
  exact ⟨L, rfl, hat, ⟨by simp, by simp, hL⟩, ok_of_returned hstep, Symptom.not_disciplined hshows⟩

end IshGo.I386
