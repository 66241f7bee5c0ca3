/-
# `IshGo.I386.X87` — the x87 subset

`CPU.stepX87` and what it uses.  The register stack is eight slots with a top
and a count.  Most operations mask the slot number with `7`; those on `ST(0)` index
with `FPUTop` itself, which is out of range, a panic of the source, when
`FPUTop > 7`.  Only code that sets the field from outside can bring that about.
-/
import IshGo.I386.Instr
import IshGo.I386.Float64

namespace IshGo.I386

/-! ## The stack -/

/-- The top as an index. -/
def fpuTopSlot : CpuM Reg := do
  let top := (← get).fpuTop
  require (top ≤ 7) .panic
  return top.setWidth 3

/-- `c.FPU[slot] = value` -/
def setFPU (slot : Reg) (value : U64) : CpuM Unit :=
  modify fun s => { s with fpu := fun i => if i = slot then value else s.fpu i }

/-- `c.FPU[c.FPUTop] = value` -/
def setST0 (value : U64) : CpuM Unit := do setFPU (← fpuTopSlot) value

/-- `c.FPU[(c.FPUTop+index)&7] = value` -/
def setST (index : U8) (value : U64) : CpuM Unit := do
  setFPU (((← get).fpuTop + index).setWidth 3) value

def fpuPush (value : U64) : CpuM Unit := do
  require ((← get).fpuCount < 8) .x87StackOverflow
  modify fun s => { s with fpuTop := (s.fpuTop + 7) &&& 7 }
  setST0 value
  modify fun s => { s with fpuCount := s.fpuCount + 1 }

def fpuPop : CpuM U64 := do
  require ((← get).fpuCount ≠ 0) .x87StackUnderflow
  let value := (← get).fpu (← fpuTopSlot)
  modify fun s => { s with fpuTop := (s.fpuTop + 1) &&& 7, fpuCount := s.fpuCount - 1 }
  return value

def fpuST (index : U8) : CpuM U64 := do
  let s ← get
  require (index < s.fpuCount ∧ index < 8) (.invalidX87StackRegister index)
  return s.fpu ((s.fpuTop + index).setWidth 3)

/-- The status word after a comparison: C3, C2 and C0 are replaced. -/
def compareStatus (status : U16) (lhs rhs : U64) : U16 :=
  let status := status &&& ~~~(0x4500 : U16)
  if Float64.isNaN lhs ∨ Float64.isNaN rhs then status ||| 0x4500
  else if Float64.lt lhs rhs then status ||| 0x0100
  else if Float64.eq lhs rhs then status ||| 0x4000
  else status

def fpuCompare (lhs rhs : U64) : CpuM Unit :=
  modify fun s => { s with fpuStatus := compareStatus s.fpuStatus lhs rhs }

/-! ## Number formats -/

/-- The 80-bit format read from ten bytes.  The integer bit is not looked at. -/
def fpuFromExtended80 (data : List U8) : U64 :=
  let significand := leValue 64 (data.take 8)
  let signExp := leValue 16 (data.drop 8)
  let exponent := signExp &&& 0x7fff
  let negative : Bool := signExp &&& 0x8000 ≠ 0
  if exponent = 0 then 0
  else if exponent = 0x7fff then
    if significand = 1 <<< 63 then Float64.withSign negative Float64.inf else Float64.nan
  else
    -- `float64(significand)` rounds, and `math.Ldexp` rounds once more
    let (m, e) := Float64.decode (Float64.encode significand.toNat 0)
    Float64.withSign negative (Float64.encode m (e - 63 + exponent.toNat - 16383))

/-- The significand with its highest bit set, and the exponent that belongs to it. -/
def normalize (m : Nat) (e : Int) : Nat × Int := (m * 2 ^ (63 - m.log2), e + m.log2)

def fpuExtended80 (value : U64) : List U8 :=
  let sign : U16 := if Float64.signbit value then 0x8000 else 0
  let (significand, exponent) : U64 × U16 :=
    if Float64.isZero value then (0, 0)
    else if Float64.isNaN value then ((1 <<< 63) ||| (1 <<< 62), 0x7fff)
    else if Float64.isInf value then (1 <<< 63, 0x7fff)
    else
      let (m, e) := Float64.decode value
      (BitVec.ofNat 64 (normalize m e).1, BitVec.ofInt 16 ((normalize m e).2 + 16383))
  leBytes significand 8 ++ leBytes (exponent ||| sign) 2

def fpuRound (value : U64) (control : U16) : U64 :=
  Float64.toInt64 ((control >>> 10) &&& 3) value

/-! ## Operands in memory -/

/-- Decode an operand that has to be in memory; its linear address. -/
def memOperand (modrm : U8) (what : String) (start : U32) : CpuM U32 := do
  let m ← decodeModRMByte modrm
  require (¬ m.isReg) (.unsupported what 0 start)
  return m.addr + (← getSegmentBase)

def readReal32 (addr : U32) : CpuM U64 := Float64.ofFloat32 <$> read32 addr
def read64 (addr : U32) : CpuM U64 := leValue 64 <$> readBytes addr 8
def write64 (addr : U32) (v : U64) : CpuM Unit := writeBytes addr (leBytes v 8)

/-- FLDCW and FSTCW m16 -/
def controlWord (modrm : U8) (start : U32) : CpuM Unit := do
  let addr ← memOperand modrm "x87 control register form" start
  if (modrm >>> 3) &&& 7 = 5 then
    let value ← read16 addr
    modify fun s => { s with fpuControl := value }
  else write16 addr (← get).fpuControl

/-- FISTP m32int -/
def fistp32 (modrm : U8) (start : U32) : CpuM Unit := do
  let addr ← memOperand modrm "x87 register FISTP m32" start
  let value ← fpuPop
  write32 addr ((fpuRound value (← get).fpuControl).setWidth 32)

/-- FISTP m64int -/
def fistp64 (modrm : U8) (start : U32) : CpuM Unit := do
  let addr ← memOperand modrm "x87 register FISTP" start
  let value ← fpuPop
  write64 addr (fpuRound value (← get).fpuControl)

/-- FSTP m80real -/
def fstp80 (modrm : U8) (start : U32) : CpuM Unit := do
  let addr ← memOperand modrm "x87 register FSTP m80" start
  let value ← fpuPop
  writeBytes addr (fpuExtended80 value)

/-- Push what is read from memory. -/
def fload (modrm : U8) (what : String) (start : U32) (load : U32 → CpuM U64) : CpuM Unit := do
  let addr ← memOperand modrm what start
  let value ← load addr
  fpuPush value

/-- Combine `ST(0)` with what is read from memory. -/
def fcombine (modrm : U8) (what : String) (start : U32) (load : U32 → CpuM U64)
    (f : U64 → U64 → U64) : CpuM Unit := do
  let addr ← memOperand modrm what start
  let rhs ← load addr
  let value ← fpuST 0
  setST0 (f value rhs)

/-- FST m64real -/
def fst64 (modrm : U8) (start : U32) : CpuM Unit := do
  let addr ← memOperand modrm "x87 register FST" start
  let value ← fpuST 0
  write64 addr value

/-- FSTP m64real -/
def fstp64 (modrm : U8) (start : U32) : CpuM Unit := do
  let addr ← memOperand modrm "x87 register FSTP" start
  let value ← fpuPop
  write64 addr value

/-! ## Operands on the stack -/

/-- `ST(0) = f ST(0)` -/
def fmapST0 (f : U64 → U64) : CpuM Unit := do
  let value ← fpuST 0
  setST0 (f value)

/-- FPREM; the reduction is complete, so C2 is cleared. -/
def fprem : CpuM Unit := do
  let dividend ← fpuST 0
  let divisor ← fpuST 1
  setST0 (Float64.mod dividend divisor)
  modify fun s => { s with fpuStatus := s.fpuStatus &&& ~~~(0x0400 : U16) }

def ftst : CpuM Unit := do
  let value ← fpuST 0
  fpuCompare value 0

/-- FNSTSW AX -/
def fnstsw : CpuM Unit := do setReg16 EAX (← get).fpuStatus

/-- FXCH ST(i) -/
def fxch (modrm : U8) (start : U32) : CpuM Unit := do
  let index := modrm &&& 7
  let s ← get
  require (index < s.fpuCount) (.invalidX87FXCH index start)
  let top ← fpuTopSlot
  let slot : Reg := (s.fpuTop + index).setWidth 3
  setFPU top (s.fpu slot)
  setFPU slot (s.fpu top)

/-- FLD ST(0) -/
def fldST0 : CpuM Unit := do
  let value ← fpuST 0
  fpuPush value

/-- The value is dropped. -/
def fdrop : CpuM Unit := do
  let _ ← fpuPop
  return ()

/-- FSTP ST(i), for `i` up to `1`. -/
def fstpST (modrm : U8) (start : U32) : CpuM Unit := do
  if modrm = 0xD8 then fdrop
  else if modrm ≠ 0xD9 then throw (.unsupported "x87 register FSTP ST" (modrm &&& 7).toNat start)
  else
    let value ← fpuST 0
    setST 1 value
    fdrop

/-- `ST(i) = f ST(i) ST(0)`, and the top popped if asked. -/
def fintoST (index : U8) (f : U64 → U64 → U64) (popTop : Bool) : CpuM Unit := do
  let lhs ← fpuST index
  let rhs ← fpuST 0
  setST index (f lhs rhs)
  doIf popTop fdrop

/-- FADD ST(0), ST(1) -/
def faddST0 : CpuM Unit := do
  let lhs ← fpuST 0
  let rhs ← fpuST 1
  setST0 (Float64.add lhs rhs)

/-- FCOMP ST(i) -/
def fcomp (modrm : U8) : CpuM Unit := do
  let lhs ← fpuST 0
  let rhs ← fpuST (modrm &&& 7)
  fpuCompare lhs rhs
  fdrop

/-! ## Dispatch -/

def stepX87 (op : U8) (start : U32) : CpuM Unit := do
  let modrm ← fetch8
  let field := (modrm >>> 3) &&& 7
  let inMem : Bool := modrm &&& 0xc0 ≠ 0xc0
  if op = 0xD9 ∧ modrm = 0xEE then fpuPush 0
  else if op = 0xD9 ∧ modrm = 0xE8 then fpuPush Float64.one
  else if op = 0xD9 ∧ modrm = 0xE1 then fmapST0 Float64.abs
  else if op = 0xD9 ∧ modrm = 0xFA then fmapST0 Float64.sqrt
  else if op = 0xD9 ∧ modrm = 0xF8 then fprem
  else if op = 0xD9 ∧ modrm = 0xE4 then ftst
  else if op = 0xDF ∧ modrm = 0xE0 then fnstsw
  else if op = 0xD9 ∧ 0xC8 ≤ modrm ∧ modrm ≤ 0xCF then fxch modrm start
  else if op = 0xD9 ∧ modrm = 0xC0 then fldST0
  else if op = 0xD9 ∧ (field = 5 ∨ field = 7) ∧ inMem then controlWord modrm start
  else if op = 0xDB ∧ field = 0 ∧ inMem then
    fload modrm "x87 register FILD m32" start fun addr =>
      (fun bits => Float64.ofInt bits.toInt) <$> read32 addr
  else if op = 0xDB ∧ field = 5 ∧ inMem then
    fload modrm "x87 register FILD m80" start fun addr => fpuFromExtended80 <$> readBytes addr 10
  else if op = 0xDB ∧ field = 7 ∧ inMem then fstp80 modrm start
  else if op = 0xDB ∧ field = 3 ∧ inMem then fistp32 modrm start
  else if op = 0xDF ∧ field = 7 ∧ inMem then fistp64 modrm start
  else if op = 0xDD ∧ 0xD8 ≤ modrm ∧ modrm ≤ 0xDF then fstpST modrm start
  else if op = 0xDE ∧ modrm = 0xE2 then fintoST 2 (fun lhs rhs => Float64.sub rhs lhs) true
  else if op = 0xD8 ∧ modrm = 0xC1 then faddST0
  else if op = 0xDC ∧ modrm = 0xC2 then fintoST 2 Float64.add false
  else if op = 0xDE ∧ modrm = 0xC9 then fintoST 1 Float64.mul true
  else if op = 0xDE ∧ modrm = 0xE9 then fintoST 1 Float64.sub true
  else if op = 0xDE ∧ 0xC0 ≤ modrm ∧ modrm ≤ 0xC7 then fintoST (modrm &&& 7) Float64.add true
  else if op = 0xD8 ∧ 0xD8 ≤ modrm ∧ modrm ≤ 0xDF then fcomp modrm
  else if op = 0xD8 ∧ field = 0 then
    fcombine modrm "x87 register FADD m32" start readReal32 Float64.add
  else if op = 0xD8 ∧ field = 1 then
    fcombine modrm "x87 register FMUL m32" start readReal32 Float64.mul
  else if op = 0xDC ∧ field = 1 then fcombine modrm "x87 register FMUL" start read64 Float64.mul
  else if op = 0xDF ∧ field = 5 then
    fload modrm "x87 register FILD" start fun addr =>
      (fun bits => Float64.ofInt bits.toInt) <$> read64 addr
  else if op = 0xD9 ∧ field = 0 then fload modrm "x87 register FLD m32" start readReal32
  else if op = 0xDD ∧ field = 0 then fload modrm "x87 register FLD" start read64
  else if op = 0xDD ∧ field = 2 then fst64 modrm start
  else if op = 0xDD ∧ field = 3 then fstp64 modrm start
  else throw (.unsupportedX87 op modrm start)

end IshGo.I386
