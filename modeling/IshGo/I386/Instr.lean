/-
# `IshGo.I386.Instr` — moves, stack, jumps, flags and strings

The arms of the switch in `CPU.Step` that are not arithmetic, one definition per
arm.  `start` is the address of the instruction, for the texts of the errors;
`operand16` and `rep` say which prefixes were met.
-/
import IshGo.I386.Cpu

namespace IshGo.I386

/-- The register in the low three bits of an opcode. -/
def opReg (op : U8) : Reg := op.setWidth 3

/-- `if cond { … }` -/
def doIf (cond : Bool) (x : CpuM Unit) : CpuM Unit := if cond then x else pure ()

/-- A byte as a signed number, in 32 bits. -/
def sext8 (v : U8) : U32 := v.signExtend 32

/-- `if bits == 16 { readRM16 } else { readRM }` -/
def readRMv (operand16 : Bool) (m : ModRM) : CpuM U32 := do
  if operand16 then return (← readRM16 m).setWidth 32 else readRM m

def writeRMv (operand16 : Bool) (m : ModRM) (v : U32) : CpuM Unit :=
  if operand16 then writeRM16 m (v.setWidth 16) else writeRM m v

/-! ## Moves -/

/-- MOV r8, imm8 -/
def movR8Imm8 (op : U8) : CpuM Unit := do setByteReg (opReg op) (← fetch8)

/-- MOV r32, imm32 -/
def movR32Imm32 (op : U8) : CpuM Unit := do setReg (opReg op) (← fetch32)

/-- CDQ -/
def cdq : CpuM Unit := do
  setReg EDX (if (← getReg EAX) &&& 0x80000000 ≠ 0 then 0xffffffff else 0)

/-- XCHG EAX, r32 -/
def xchgEAX (op : U8) : CpuM Unit := do
  let a ← getReg EAX
  let b ← getReg (opReg op)
  setReg EAX b
  setReg (opReg op) a

/-- XCHG r32, r/m32 -/
def xchgRM : CpuM Unit := do
  let m ← decodeModRM
  let value ← readRM m
  let old ← getReg m.reg
  setReg m.reg value
  writeRM m old

/-- MOV r/m8, imm8 -/
def movRM8Imm8 (start : U32) : CpuM Unit := do
  let m ← decodeModRM
  require (m.reg = 0) (.unsupported "C6 group" m.reg.toNat start)
  writeRM8 m (← fetch8)

/-- MOV between the accumulator and an absolute address. -/
def movMoffs (op : U8) : CpuM Unit := do
  let addr := (← fetch32) + (← getSegmentBase)
  if op = 0xA0 then setByteReg 0 (← read8 addr)
  else if op = 0xA1 then setReg EAX (← read32 addr)
  else if op = 0xA2 then write8 addr (← byteReg 0)
  else write32 addr (← getReg EAX)

/-- MOV Sreg, r/m16 -/
def movSreg (start : U32) : CpuM Unit := do
  let m ← decodeModRM
  let value ← readRM16 m
  if m.reg = 1 then throw (.unsupported "MOV CS" 0 start)
  else if m.reg = 2 ∨ m.reg = 3 then return ()
  else if m.reg = 4 then modify fun s => { s with fsSelector := value }
  else if m.reg = 5 then modify fun s => { s with gsSelector := value }
  else throw (.unsupported "segment register" m.reg.toNat start)

/-- MOV r/m8, r8 or MOV r8, r/m8 -/
def movByte (op : U8) : CpuM Unit := do
  let m ← decodeModRM
  if op = 0x88 then writeRM8 m (← byteReg m.reg)
  else setByteReg m.reg (← readRM8 m)

/-- MOV r/m, imm -/
def movRMImm (start : U32) (operand16 : Bool) (m : ModRM) : CpuM Unit := do
  require (m.reg = 0) (.unsupported "C7 group" m.reg.toNat start)
  if operand16 then writeRM16 m (← fetch16) else writeRM m (← fetch32)

/-- LEA; the register form, which has no address, gives the register. -/
def lea (m : ModRM) : CpuM Unit := setReg m.reg (if m.isReg then m.regVal else m.addr)

/-- MOV r/m, r or MOV r, r/m -/
def movRM (op : U8) (operand16 : Bool) (m : ModRM) : CpuM Unit := do
  if operand16 then
    if op = 0x89 then writeRM16 m ((← getReg m.reg).setWidth 16)
    else setReg16 m.reg (← readRM16 m)
  else if op = 0x89 then writeRM m (← getReg m.reg)
  else setReg m.reg (← readRM m)

/-- MOVZX and MOVSX -/
def movExtend (ext : U8) : CpuM Unit := do
  let m ← decodeModRM
  if ext = 0xB6 then setReg m.reg ((← readRM8 m).setWidth 32)
  else if ext = 0xBE then setReg m.reg (sext8 (← readRM8 m))
  else if ext = 0xBF then setReg m.reg ((← readRM16 m).signExtend 32)
  else setReg m.reg ((← readRM16 m).setWidth 32)

/-- `bits.ReverseBytes32` -/
def reverseBytes (v : U32) : U32 :=
  (v >>> 24) ||| ((v >>> 8) &&& 0xff00) ||| ((v <<< 8) &&& 0xff0000) ||| (v <<< 24)

/-- BSWAP r32 -/
def bswap (ext : U8) : CpuM Unit := do setReg (opReg ext) (reverseBytes (← getReg (opReg ext)))

/-- SETcc r/m8 -/
def setcc (ext : U8) : CpuM Unit := do
  let m ← decodeModRM
  writeRM8 m (if ← condition (ext &&& 0xf) then 1 else 0)

/-! ## Stack and jumps -/

def pushReg (op : U8) : CpuM Unit := do push (← getReg (opReg op))
def popReg (op : U8) : CpuM Unit := do setReg (opReg op) (← pop)
def pushImm32 : CpuM Unit := do push (← fetch32)
def pushImm8 : CpuM Unit := do push (sext8 (← fetch8))

/-- `c.EIP += rel` -/
def jump (rel : U32) : CpuM Unit := do setEIP ((← getEIP) + rel)

def ret : CpuM Unit := do setEIP (← pop)

/-- RET imm16 -/
def retImm16 : CpuM Unit := do
  let v ← pop
  let adjust ← fetch16
  setReg ESP ((← getReg ESP) + adjust.setWidth 32)
  setEIP v

def leave : CpuM Unit := do
  setReg ESP (← getReg EBP)
  setReg EBP (← pop)

/-- CALL rel32 -/
def callRel : CpuM Unit := do
  let rel ← fetch32
  push (← getEIP)
  jump rel

def jmpRel32 : CpuM Unit := do jump (← fetch32)
def jmpRel8 : CpuM Unit := do jump (sext8 (← fetch8))

/-- Jcc rel8 -/
def jccRel8 (op : U8) : CpuM Unit := do
  let rel ← fetch8
  doIf (← condition (op &&& 0xf)) (jump (sext8 rel))

/-- Jcc rel32 -/
def jccRel32 (ext : U8) : CpuM Unit := do
  let rel ← fetch32
  doIf (← condition (ext &&& 0xf)) (jump rel)

def hlt : CpuM Unit := modify fun s => { s with halted := true }

/-- The flags that SAHF takes from AH. -/
def sahfFlags (f : U32) (ah : U8) : U32 :=
  let f := f &&& ~~~(flagSF ||| flagZF ||| flagPF ||| flagCF)
  let f := orIf f (ah &&& 0x80 ≠ 0) flagSF
  let f := orIf f (ah &&& 0x40 ≠ 0) flagZF
  let f := orIf f (ah &&& 0x04 ≠ 0) flagPF
  orIf f (ah &&& 0x01 ≠ 0) flagCF

def sahf : CpuM Unit := do
  let eax ← getReg EAX
  updateFlags (sahfFlags · ((eax >>> 8).setWidth 8))

/-! ## Strings -/

/-- The number of turns: one, or ECX, which REP clears before the first turn. -/
def repCount (rep : Bool) : CpuM Nat := do
  if rep then
    let count ← getReg ECX
    setReg ECX 0
    return count.toNat
  else return 1

/-- The step of the index registers, in the direction DF gives. -/
def stringStep (width : U32) : CpuM U32 := do
  return if (← getFlags) &&& flagDF ≠ 0 then ~~~width + 1 else width

/-- `c.Regs[r] += step` -/
def advance (r : Reg) (step : U32) : CpuM Unit := do setReg r ((← getReg r) + step)

def movsUnit (op : U8) : CpuM Unit := do
  let esi ← getReg ESI
  if op = 0xA4 then write8 (← getReg EDI) (← read8 esi)
  else write32 (← getReg EDI) (← read32 esi)

def movsLoop (op : U8) (step : U32) : Nat → CpuM Unit
  | 0 => pure ()
  | count + 1 => do
      movsUnit op
      advance ESI step
      advance EDI step
      movsLoop op step count

/-- MOVSB and MOVSD.  A fault in a turn leaves ECX cleared and the index registers
where the earlier turns put them. -/
def movs (op : U8) (rep : Bool) : CpuM Unit := do
  let count ← repCount rep
  let step ← stringStep (if op = 0xA5 then 4 else 1)
  movsLoop op step count

def stosUnit (op : U8) : CpuM Unit := do
  if op = 0xAA then write8 (← getReg EDI) (← byteReg 0)
  else write32 (← getReg EDI) (← getReg EAX)

def stosLoop (op : U8) (step : U32) : Nat → CpuM Unit
  | 0 => pure ()
  | count + 1 => do
      stosUnit op
      advance EDI step
      stosLoop op step count

/-- STOSB and STOSD -/
def stos (op : U8) (rep : Bool) : CpuM Unit := do
  let count ← repCount rep
  let step ← stringStep (if op = 0xAB then 4 else 1)
  stosLoop op step count

end IshGo.I386
