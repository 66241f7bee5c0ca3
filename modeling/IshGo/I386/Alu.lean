/-
# `IshGo.I386.Alu` — arithmetic, logic, shifts and bit operations

The other arms of the switch in `CPU.Step`, except those of the x87.
-/
import IshGo.I386.Instr

namespace IshGo.I386

/-! ## One operand -/

/-- INC r32.  The source clears the carry, although it means to keep it. -/
def incReg (op : U8) : CpuM Unit := do
  let a ← getReg (opReg op)
  setReg (opReg op) (a + 1)
  setAddFlags a 1 (a + 1)
  putFlag flagCF false

/-- DEC r32; the carry as in `incReg`. -/
def decReg (op : U8) : CpuM Unit := do
  let a ← getReg (opReg op)
  setReg (opReg op) (a - 1)
  setSubFlags a 1 (a - 1)
  putFlag flagCF false

/-- Run `x` and put the carry back. -/
def keepCarry (x : CpuM Unit) : CpuM Unit := do
  let oldCF := (← getFlags) &&& flagCF
  x
  setFlags (((← getFlags) &&& ~~~flagCF) ||| oldCF)

/-- INC and DEC r/m8 -/
def groupFE (start : U32) : CpuM Unit := do
  let m ← decodeModRM
  require (m.reg = 0 ∨ m.reg = 1) (.unsupported "FE group" m.reg.toNat start)
  let value ← readRM8 m
  if m.reg = 0 then
    keepCarry (setAddFlagsN (value.setWidth 32) 1 ((value + 1).setWidth 32) 8)
    writeRM8 m (value + 1)
  else
    keepCarry (setSubFlagsN (value.setWidth 32) 1 ((value - 1).setWidth 32) 8)
    writeRM8 m (value - 1)

/-- INC, DEC, CALL, JMP and PUSH r/m32 -/
def groupFF (start : U32) : CpuM Unit := do
  let m ← decodeModRM
  let value ← readRM m
  if m.reg = 0 then
    keepCarry (setAddFlags value 1 (value + 1))
    writeRM m (value + 1)
  else if m.reg = 1 then
    keepCarry (setSubFlags value 1 (value - 1))
    writeRM m (value - 1)
  else if m.reg = 2 then
    push (← getEIP)
    setEIP value
  else if m.reg = 4 then setEIP value
  else if m.reg = 6 then push value
  else throw (.unsupported "FF group" m.reg.toNat start)

/-! ## The F6 and F7 groups -/

/-- The immediate of TEST r/m, imm. -/
def testImm (byte : Bool) (value : U32) : CpuM Unit := do
  if byte then setLogicFlagsN (value &&& (← fetch8).setWidth 32) 8
  else setLogicFlags (value &&& (← fetch32))

def notRM (byte : Bool) (m : ModRM) (value : U32) : CpuM Unit :=
  if byte then writeRM8 m ((~~~value).setWidth 8) else writeRM m (~~~value)

def negRM (byte : Bool) (m : ModRM) (value : U32) : CpuM Unit := do
  if byte then
    setSubFlagsN 0 value (-value) 8
    writeRM8 m ((-value).setWidth 8)
  else
    setSubFlags 0 value (-value)
    writeRM m (-value)

/-- MUL and IMUL of AL, into AX. -/
def mulByte (signed : Bool) (value : U32) : CpuM Unit := do
  let al ← byteReg 0
  let factor : U8 := value.setWidth 8
  setReg16 EAX (if signed then al.signExtend 16 * factor.signExtend 16
    else al.setWidth 16 * factor.setWidth 16)

/-- MUL and IMUL of EAX, into EDX:EAX. -/
def mulWord (signed : Bool) (value : U32) : CpuM Unit := do
  let eax ← getReg EAX
  let product : U64 := if signed then eax.signExtend 64 * value.signExtend 64
    else eax.setWidth 64 * value.setWidth 64
  setReg EAX (product.setWidth 32)
  setReg EDX ((product >>> 32).setWidth 32)

/-- DIV of AX by a byte. -/
def divByte (value : U32) : CpuM Unit := do
  let dividend := (← getReg EAX) &&& 0xffff
  require (dividend / value ≤ 0xff) .byteDivisionOverflow
  setByteReg 0 ((dividend / value).setWidth 8)
  setByteReg 4 ((dividend % value).setWidth 8)

/-- IDIV of AX by a byte. -/
def idivByte (value : U32) : CpuM Unit := do
  let dividend : U32 := ((← getReg EAX).setWidth 16).signExtend 32
  let divisor : U32 := (value.setWidth 8).signExtend 32
  let q := dividend.sdiv divisor
  require (-128 ≤ q.toInt ∧ q.toInt ≤ 127) .signedByteDivisionOverflow
  setByteReg 0 (q.setWidth 8)
  setByteReg 4 ((dividend.srem divisor).setWidth 8)

/-- `(uint64(EDX) << 32) | uint64(EAX)` -/
def wideDividend : CpuM U64 := do
  return ((← getReg EDX).setWidth 64 <<< 32) ||| (← getReg EAX).setWidth 64

/-- DIV of EDX:EAX. -/
def divWord (value : U32) : CpuM Unit := do
  let dividend ← wideDividend
  let divisor : U64 := value.setWidth 64
  require (dividend / divisor ≤ 0xffffffff) .divisionOverflow
  setReg EAX ((dividend / divisor).setWidth 32)
  setReg EDX ((dividend % divisor).setWidth 32)

/-- IDIV of EDX:EAX. -/
def idivWord (value : U32) : CpuM Unit := do
  let dividend ← wideDividend
  let divisor : U64 := value.signExtend 64
  let q := dividend.sdiv divisor
  require (-2147483648 ≤ q.toInt ∧ q.toInt ≤ 2147483647) .signedDivisionOverflow
  setReg EAX (q.setWidth 32)
  setReg EDX ((dividend.srem divisor).setWidth 32)

def divGroup (start : U32) (byte signed : Bool) (value : U32) : CpuM Unit := do
  require (value ≠ 0) (.divisionByZero start)
  if byte then if signed then idivByte value else divByte value
  else if signed then idivWord value else divWord value

/-- The operations of the group on a value that has been read. -/
def unaryGroup (start : U32) (byte : Bool) (m : ModRM) (value : U32) : CpuM Unit :=
  if m.reg = 0 then testImm byte value
  else if m.reg = 2 then notRM byte m value
  else if m.reg = 3 then negRM byte m value
  else if m.reg = 4 ∨ m.reg = 5 then
    if byte then mulByte (m.reg = 5) value else mulWord (m.reg = 5) value
  else if m.reg = 6 ∨ m.reg = 7 then divGroup start byte (m.reg = 7) value
  else throw (.unsupported (if byte then "F1 group" else "F4 group") m.reg.toNat start)

/-- TEST r/m16, imm16, the one 16-bit operation of F7. -/
def test16 (start : U32) (m : ModRM) : CpuM Unit := do
  require (m.reg = 0) (.unsupported "16-bit F7 group" m.reg.toNat start)
  let value ← readRM16 m
  let imm ← fetch16
  setLogicFlagsN ((value &&& imm).setWidth 32) 16

def groupF6F7 (op : U8) (start : U32) (operand16 : Bool) : CpuM Unit := do
  let m ← decodeModRM
  if operand16 ∧ op = 0xF7 then test16 start m
  else if op = 0xF6 then unaryGroup start true m ((← readRM8 m).setWidth 32)
  else unaryGroup start false m (← readRM m)

/-! ## Multiplication into a register -/

/-- IMUL r32, r/m32 -/
def imulRM : CpuM Unit := do
  let m ← decodeModRM
  let value ← readRM m
  let result := (← getReg m.reg) * value
  setReg m.reg result
  setLogicFlags result

/-- IMUL r32, r/m32, imm; the low word of a product does not depend on signs. -/
def imulImm (op : U8) : CpuM Unit := do
  let m ← decodeModRM
  let value ← readRM m
  let imm ← if op = 0x69 then fetch32 else sext8 <$> fetch8
  setReg m.reg (value * imm)
  setLogicFlags (value * imm)

/-! ## Shifts and rotations -/

/-- A byte shifted: the result, CF and OF.  `reg` selects the operation, and the
count is between `1` and `7`. -/
def shift8 (reg : Reg) (value : U8) (count : Nat) : Option (U8 × Bool × Bool) :=
  let bit (v : U8) (i : Nat) : Bool := (v >>> i) &&& 1 ≠ 0
  match reg.toNat with
  | 4 =>
    let cf := bit value (8 - count)
    let result := value <<< count
    some (result, cf, count = 1 ∧ bit result 7 ≠ cf)
  | 5 => some (value >>> count, bit value (count - 1), count = 1 ∧ value &&& 0x80 ≠ 0)
  | 7 => some (value.sshiftRight count, bit value (count - 1), false)
  | 0 =>
    let result := (value <<< count) ||| (value >>> (8 - count))
    some (result, bit result 0, count = 1 ∧ bit result 7 ≠ bit result 0)
  | 1 =>
    let result := (value >>> count) ||| (value <<< (8 - count))
    some (result, bit result 7, count = 1 ∧ bit result 7 ≠ bit result 6)
  | _ => none

def storeShift8 (m : ModRM) (start : U32) : Option (U8 × Bool × Bool) → CpuM Unit
  | none => throw (.unsupported "C0 group" m.reg.toNat start)
  | some (result, cf, of) => do
      writeRM8 m result
      setShiftFlagsN (result.setWidth 32) cf of 8

/-- The count is taken modulo 8, and no operation with the count `0` is an error. -/
def groupC0 (op : U8) (start : U32) : CpuM Unit := do
  let m ← decodeModRM
  let count ← if op = 0xC0 then fetch8 else pure 1
  let value ← readRM8 m
  if count &&& 7 = 0 then return ()
  else storeShift8 m start (shift8 m.reg value (count &&& 7).toNat)

/-- A word of `bits` bits shifted: the result, CF and OF.  The count is not zero;
a rotation takes it modulo the width. -/
def shiftN (bits : Nat) (reg : Reg) (value : U32) (count : Nat) : Option (U32 × Bool × Bool) :=
  let bit (v : U32) (i : Nat) : Bool := (v >>> i) &&& 1 ≠ 0
  let mask : U32 := if bits = 16 then 0xffff else 0xffffffff
  match reg.toNat with
  | 4 =>
    let cf : Bool := count < bits ∧ bit value (bits - count)
    let result := if count < bits then (value <<< count) &&& mask else 0
    some (result, cf, count = 1 ∧ bit result (bits - 1) ≠ cf)
  | 5 =>
    let result := if count < bits then value >>> count else 0
    some (result, count < bits ∧ bit value (count - 1), count = 1 ∧ bit value (bits - 1))
  | 7 =>
    let cf := if count < bits then bit value (count - 1) else bit value (bits - 1)
    let result := if bits = 16 then ((value.setWidth 16).sshiftRight count).setWidth 32
      else value.sshiftRight count
    some (result, cf, false)
  | 0 =>
    let count := count % bits
    let result := if count ≠ 0 then ((value <<< count) ||| (value >>> (bits - count))) &&& mask
      else value
    some (result, bit result 0, count = 1 ∧ bit result (bits - 1) ≠ bit result 0)
  | 1 =>
    let count := count % bits
    let result := if count ≠ 0 then ((value >>> count) ||| (value <<< (bits - count))) &&& mask
      else value
    some (result, bit result (bits - 1), count = 1 ∧ bit result (bits - 1) ≠ bit result (bits - 2))
  | _ => none

/-- The count of a shift: `1`, an immediate or CL. -/
def shiftCount (op : U8) : CpuM Nat := do
  if op = 0xC1 then return ((← fetch8) &&& 31).toNat
  else if op = 0xD3 then return ((← byteReg 1) &&& 31).toNat
  else return 1

def storeShiftN (operand16 : Bool) (m : ModRM) (start : U32) :
    Option (U32 × Bool × Bool) → CpuM Unit
  | none => throw (.unsupported "shift group" m.reg.toNat start)
  | some (result, cf, of) => do
      writeRMv operand16 m result
      if operand16 then setShiftFlagsN result cf of 16 else setShiftFlags result cf of

/-- Shifts of a word or a half word.  The operand is read as a word in both
cases, and written in its own width. -/
def groupC1 (op : U8) (start : U32) (operand16 : Bool) : CpuM Unit := do
  let m ← decodeModRM
  let count ← shiftCount op
  let word ← readRM m
  let value := if operand16 then word &&& 0xffff else word
  if count = 0 then return ()
  else storeShiftN operand16 m start (shiftN (if operand16 then 16 else 32) m.reg value count)

/-- SHLD and SHRD r/m32, r32, imm8; the count `0` reads nothing. -/
def shiftDouble (left : Bool) : CpuM Unit := do
  let m ← decodeModRM
  let count := ((← fetch8) &&& 31).toNat
  if count = 0 then return ()
  else
    let dest ← readRM m
    let src ← getReg m.reg
    let result := if left then (dest <<< count) ||| (src >>> (32 - count))
      else (dest >>> count) ||| (src <<< (32 - count))
    let cf : Bool := dest &&& (1 <<< (if left then 32 - count else count - 1)) ≠ 0
    let of : Bool := count = 1 ∧ (dest >>> 31) &&& 1 ≠ (result >>> 31) &&& 1
    writeRM m result
    setShiftFlags result cf of

/-! ## Bits -/

inductive BitOp where
  | test
  | set
  | reset
  | flip
  deriving DecidableEq, Repr

def BitOp.apply : BitOp → U32 → U32 → U32
  | .test, value, _ => value
  | .set, value, bit => value ||| bit
  | .reset, value, bit => value &&& ~~~bit
  | .flip, value, bit => value ^^^ bit

/-- The operation of the BA group. -/
def BitOp.ofReg (reg : Reg) : BitOp :=
  if reg = 5 then .set else if reg = 6 then .reset else if reg = 7 then .flip else .test

/-- The operation of the forms with a register. -/
def BitOp.ofExt (ext : U8) : BitOp :=
  if ext = 0xAB then .set else if ext = 0xB3 then .reset else if ext = 0xBB then .flip else .test

/-- BT, BTS, BTR and BTC r/m32, imm8 -/
def groupBA (start : U32) : CpuM Unit := do
  let m ← decodeModRM
  let imm ← fetch8
  require (¬ m.reg < 4) (.unsupported "BA group" m.reg.toNat start)
  let value ← readRM m
  let bit : U32 := 1 <<< (imm &&& 31).toNat
  putFlag flagCF (value &&& bit ≠ 0)
  doIf (m.reg ≠ 4) (writeRM m ((BitOp.ofReg m.reg).apply value bit))

/-- The word that holds bit `index` of the bit string at `addr`: Go's division
rounds towards zero. -/
def bitAddr (addr : U32) (index : U32) : U32 := addr + BitVec.ofInt 32 (index.toInt.tdiv 32 * 4)

/-- BT, BTS, BTR and BTC r/m32, r32; in memory the index reaches beyond the word. -/
def bitString (ext : U8) : CpuM Unit := do
  let m ← decodeModRM
  let index ← getReg m.reg
  let bit : U32 := 1 <<< (index &&& 31).toNat
  if m.isReg then
    let value ← readRM m
    putFlag flagCF (value &&& bit ≠ 0)
    doIf (ext ≠ 0xA3) (writeRM m ((BitOp.ofExt ext).apply value bit))
  else
    let addr := bitAddr m.addr index + (← getSegmentBase)
    let value ← read32 addr
    putFlag flagCF (value &&& bit ≠ 0)
    doIf (ext ≠ 0xA3) (write32 addr ((BitOp.ofExt ext).apply value bit))

/-- The loop of BSF, on a value that is not zero: the lowest bit that is set. -/
def bsfLoop : Nat → U32 → U32 → U32
  | 0, _, index => index
  | fuel + 1, value, index =>
    if value &&& 1 = 0 then bsfLoop fuel (value >>> 1) (index + 1) else index

/-- The loop of BSR, from an index down. -/
def bsrLoop (value : U32) : Nat → Nat
  | 0 => 0
  | index + 1 => if value &&& (1 <<< (index + 1)) = 0 then bsrLoop value index else index + 1

/-- BSF and BSR r32, r/m32 -/
def bitScan (ext : U8) : CpuM Unit := do
  let m ← decodeModRM
  let value ← readRM m
  if value = 0 then putFlag flagZF true
  else
    setReg m.reg (if ext = 0xBC then bsfLoop 32 value 0 else BitVec.ofNat 32 (bsrLoop value 31))
    putFlag flagZF false

/-- CMPXCHG r/m32, r32 -/
def cmpxchg : CpuM Unit := do
  let m ← decodeModRM
  let dest ← readRM m
  let compare ← getReg EAX
  setSubFlags compare dest (compare - dest)
  if compare = dest then
    putFlag flagZF true
    writeRM m (← getReg m.reg)
  else
    putFlag flagZF false
    setReg EAX dest

/-! ## Binary operations with an immediate -/

def setAddFlagsV (operand16 : Bool) (a b result : U32) : CpuM Unit :=
  if operand16 then setAddFlagsN a b result 16 else setAddFlags a b result

def setSubFlagsV (operand16 : Bool) (a b result : U32) : CpuM Unit :=
  if operand16 then setSubFlagsN a b result 16 else setSubFlags a b result

def setLogicFlagsV (operand16 : Bool) (result : U32) : CpuM Unit :=
  if operand16 then setLogicFlagsN result 16 else setLogicFlags result

/-- The flags and the result of an operation of the 80 group. -/
def aluByte (start : U32) (reg : Reg) (lhs imm : U8) : CpuM U8 := do
  if reg = 0 then
    setAddFlagsN (lhs.setWidth 32) (imm.setWidth 32) ((lhs + imm).setWidth 32) 8
    return lhs + imm
  else if reg = 1 then
    setLogicFlagsN ((lhs ||| imm).setWidth 32) 8
    return lhs ||| imm
  else if reg = 4 then
    setLogicFlagsN ((lhs &&& imm).setWidth 32) 8
    return lhs &&& imm
  else if reg = 5 ∨ reg = 7 then
    setSubFlagsN (lhs.setWidth 32) (imm.setWidth 32) ((lhs - imm).setWidth 32) 8
    return lhs - imm
  else if reg = 6 then
    setLogicFlagsN ((lhs ^^^ imm).setWidth 32) 8
    return lhs ^^^ imm
  else throw (.unsupported "byte ALU group" reg.toNat start)

/-- ALU r/m8, imm8; CMP (`7`) does not write. -/
def group80 (start : U32) : CpuM Unit := do
  let m ← decodeModRM
  let imm ← fetch8
  let lhs ← readRM8 m
  let result ← aluByte start m.reg lhs imm
  doIf (m.reg ≠ 7) (writeRM8 m result)

/-- The flags and the result of an operation of the 81 and 83 groups. -/
def aluWord (operand16 : Bool) (reg : Reg) (lhs rhs : U32) : CpuM U32 := do
  let bits := if operand16 then 16 else 32
  if reg = 0 then
    setAddFlagsV operand16 lhs rhs (lhs + rhs)
    return lhs + rhs
  else if reg = 1 then
    setLogicFlagsV operand16 (lhs ||| rhs)
    return lhs ||| rhs
  else if reg = 2 then
    let carry ← carryIn
    setADCFlagsN lhs rhs carry (lhs + rhs + carry) bits
    return lhs + rhs + carry
  else if reg = 3 then
    let borrow ← carryIn
    setSBBFlagsN lhs rhs borrow (lhs - rhs - borrow) bits
    return lhs - rhs - borrow
  else if reg = 4 then
    setLogicFlagsV operand16 (lhs &&& rhs)
    return lhs &&& rhs
  else if reg = 6 then
    setLogicFlagsV operand16 (lhs ^^^ rhs)
    return lhs ^^^ rhs
  else
    setSubFlagsV operand16 lhs rhs (lhs - rhs)
    return lhs - rhs

/-- The immediate of the 81 and 83 groups: a byte is sign-extended. -/
def aluImm (op : U8) (operand16 : Bool) : CpuM U32 := do
  if operand16 then
    if op = 0x81 then return (← fetch16).setWidth 32
    else return ((← fetch8).signExtend 16).setWidth 32
  else if op = 0x81 then fetch32
  else return sext8 (← fetch8)

/-- ALU r/m, imm; CMP (`7`) does not write. -/
def group81 (op : U8) (operand16 : Bool) : CpuM Unit := do
  let m ← decodeModRM
  let rhs ← aluImm op operand16
  let lhs ← readRMv operand16 m
  let result ← aluWord operand16 m.reg lhs rhs
  doIf (m.reg ≠ 7) (writeRMv operand16 m result)

/-- OR, AND or XOR, by the opcode of the accumulator form. -/
def logicOf {w : Nat} (op : U8) (a b : BitVec w) : BitVec w :=
  if op = 0x0D then a ||| b else if op = 0x25 then a &&& b else a ^^^ b

/-- OR, AND and XOR of EAX or AX with an immediate. -/
def logicAccImm (op : U8) (operand16 : Bool) : CpuM Unit := do
  if operand16 then
    let imm ← fetch16
    let value := logicOf op ((← getReg EAX).setWidth 16) imm
    setReg16 EAX value
    setLogicFlagsN (value.setWidth 32) 16
  else
    let imm ← fetch32
    let value := logicOf op (← getReg EAX) imm
    setReg EAX value
    setLogicFlags value

/-- TEST EAX, imm32 -/
def testEAXImm : CpuM Unit := do
  let imm ← fetch32
  setLogicFlags ((← getReg EAX) &&& imm)

/-- TEST AL, imm8 -/
def testALImm : CpuM Unit := do
  let imm ← fetch8
  setLogicFlagsN (((← byteReg 0) &&& imm).setWidth 32) 8

/-- CMP AL, imm8 -/
def cmpALImm : CpuM Unit := do
  let imm ← fetch8
  let al ← byteReg 0
  setSubFlagsN (al.setWidth 32) (imm.setWidth 32) ((al - imm).setWidth 32) 8

/-- ADD AL or EAX, imm -/
def addAccImm (op : U8) : CpuM Unit := do
  if op = 0x04 then
    let v ← fetch8
    let a ← byteReg 0
    setByteReg 0 (a + v)
    setAddFlagsN (a.setWidth 32) (v.setWidth 32) (a.setWidth 32 + v.setWidth 32) 8
  else
    let v ← fetch32
    let a ← getReg EAX
    setReg EAX (a + v)
    setAddFlagsN a v (a + v) 32

/-- AND AL or EAX, imm; the EAX form is taken by `logicAccImm` before. -/
def andAccImm (op : U8) : CpuM Unit := do
  if op = 0x24 then
    let v ← fetch8
    let result := (← byteReg 0) &&& v
    setByteReg 0 result
    setLogicFlagsN (result.setWidth 32) 8
  else
    let v ← fetch32
    let result := (← getReg EAX) &&& v
    setReg EAX result
    setLogicFlagsN result 32

/-- OR AL or EAX, imm; the EAX form is taken by `logicAccImm` before. -/
def orAccImm (op : U8) : CpuM Unit := do
  if op = 0x0C then
    let v ← fetch8
    let result := (← byteReg 0) ||| v
    setByteReg 0 result
    setLogicFlagsN (result.setWidth 32) 8
  else
    let v ← fetch32
    let result := (← getReg EAX) ||| v
    setReg EAX result
    setLogicFlagsN result 32

/-- ADC AL or EAX, imm -/
def adcAccImm (op : U8) : CpuM Unit := do
  let carry ← carryIn
  if op = 0x14 then
    let v ← fetch8
    let a ← byteReg 0
    let result : U32 := a.setWidth 32 + v.setWidth 32 + carry
    setByteReg 0 (result.setWidth 8)
    setADCFlagsN (a.setWidth 32) (v.setWidth 32) carry result 8
  else
    let v ← fetch32
    let a ← getReg EAX
    setReg EAX (a + v + carry)
    setADCFlagsN a v carry (a + v + carry) 32

/-- The second arm for ADD EAX, imm32, which `addAccImm` shadows. -/
def addEAXImm : CpuM Unit := do
  let v ← fetch32
  let a ← getReg EAX
  setReg EAX (a + v)
  setAddFlags a v (a + v)

/-- SUB EAX, imm32 -/
def subEAXImm : CpuM Unit := do
  let v ← fetch32
  let a ← getReg EAX
  setReg EAX (a - v)
  setSubFlags a v (a - v)

/-- CMP EAX, imm32 -/
def cmpEAXImm : CpuM Unit := do
  let v ← fetch32
  let a ← getReg EAX
  setSubFlags a v (a - v)

/-! ## Binary operations of registers -/

/-- CMP r/m8, r8 -/
def cmpByte : CpuM Unit := do
  let m ← decodeModRM
  let lhs ← readRM8 m
  let rhs ← byteReg m.reg
  setSubFlagsN (lhs.setWidth 32) (rhs.setWidth 32) ((lhs - rhs).setWidth 32) 8

/-- TEST r/m8, r8 -/
def testByte : CpuM Unit := do
  let m ← decodeModRM
  let lhs ← readRM8 m
  setLogicFlagsN ((lhs &&& (← byteReg m.reg)).setWidth 32) 8

/-- TEST r/m32, r32 -/
def testWord : CpuM Unit := do
  let m ← decodeModRM
  let lhs ← readRM m
  setLogicFlags (lhs &&& (← getReg m.reg))

/-- The byte forms `r/m8, r8` and `r8, r/m8` of ADD, ADC, OR and AND: the result
is stored before the flags are set. -/
def byteForm (toRM : Bool) (f : U8 → U8 → U8) (flags : U8 → U8 → CpuM Unit) : CpuM Unit := do
  let m ← decodeModRM
  if toRM then
    let lhs ← readRM8 m
    let rhs ← byteReg m.reg
    writeRM8 m (f lhs rhs)
    flags lhs rhs
  else
    let lhs ← byteReg m.reg
    let rhs ← readRM8 m
    setByteReg m.reg (f lhs rhs)
    flags lhs rhs

def addByte (op : U8) : CpuM Unit :=
  byteForm (op = 0x00) (· + ·) fun lhs rhs =>
    setAddFlagsN (lhs.setWidth 32) (rhs.setWidth 32) (lhs.setWidth 32 + rhs.setWidth 32) 8

def adcByte (op : U8) : CpuM Unit := do
  let carry ← carryIn
  byteForm (op = 0x10) (fun lhs rhs => lhs + rhs + carry.setWidth 8) fun lhs rhs =>
    setADCFlagsN (lhs.setWidth 32) (rhs.setWidth 32) carry
      (lhs.setWidth 32 + rhs.setWidth 32 + carry) 8

def orByte (op : U8) : CpuM Unit :=
  byteForm (op = 0x08) (· ||| ·) fun lhs rhs => setLogicFlagsN ((lhs ||| rhs).setWidth 32) 8

def andByte (op : U8) : CpuM Unit :=
  byteForm (op = 0x20) (· &&& ·) fun lhs rhs => setLogicFlagsN ((lhs &&& rhs).setWidth 32) 8

/-- XOR r/m8, r8 -/
def xorByte : CpuM Unit :=
  byteForm true (· ^^^ ·) fun lhs rhs => setLogicFlagsN ((lhs ^^^ rhs).setWidth 32) 8

/-- ADC r/m32, r32 and r32, r/m32 -/
def adcWord (op : U8) : CpuM Unit := do
  let m ← decodeModRM
  let carry ← carryIn
  if op = 0x11 then
    let lhs ← readRM m
    let rhs ← getReg m.reg
    writeRM m (lhs + rhs + carry)
    setADCFlagsN lhs rhs carry (lhs + rhs + carry) 32
  else
    let lhs ← getReg m.reg
    let rhs ← readRM m
    setReg m.reg (lhs + rhs + carry)
    setADCFlagsN lhs rhs carry (lhs + rhs + carry) 32

/-- SBB r8, r/m8 -/
def sbbR8 : CpuM Unit := do
  let m ← decodeModRM
  let lhs ← byteReg m.reg
  let rhs ← readRM8 m
  let borrow ← carryIn
  let result : U32 := lhs.setWidth 32 - rhs.setWidth 32 - borrow
  setByteReg m.reg (result.setWidth 8)
  setSBBFlagsN (lhs.setWidth 32) (rhs.setWidth 32) borrow result 8

/-- SBB r/m8, r8 -/
def sbbRM8 : CpuM Unit := do
  let m ← decodeModRM
  let borrow ← carryIn
  let lhs ← readRM8 m
  let rhs ← byteReg m.reg
  let result : U32 := lhs.setWidth 32 - rhs.setWidth 32 - borrow
  writeRM8 m (result.setWidth 8)
  setSBBFlagsN (lhs.setWidth 32) (rhs.setWidth 32) borrow result 8

/-- A register in the operand width. -/
def getRegV (operand16 : Bool) (r : Reg) : CpuM U32 := do
  let v ← getReg r
  return if operand16 then (v.setWidth 16).setWidth 32 else v

def setRegV (operand16 : Bool) (r : Reg) (v : U32) : CpuM Unit :=
  if operand16 then setReg16 r (v.setWidth 16) else setReg r v

/-- SBB r/m, r and r, r/m -/
def sbbWord (op : U8) (operand16 : Bool) : CpuM Unit := do
  let m ← decodeModRM
  let borrow ← carryIn
  let bits := if operand16 then 16 else 32
  if op = 0x1B then
    let lhs ← getRegV operand16 m.reg
    let rhs ← readRMv operand16 m
    setRegV operand16 m.reg (lhs - rhs - borrow)
    setSBBFlagsN lhs rhs borrow (lhs - rhs - borrow) bits
  else
    let lhs ← readRMv operand16 m
    let rhs ← getRegV operand16 m.reg
    writeRMv operand16 m (lhs - rhs - borrow)
    setSBBFlagsN lhs rhs borrow (lhs - rhs - borrow) bits

/-- CMP r8, r/m8 -/
def cmpR8 (m : ModRM) : CpuM Unit := do
  let lhs ← readRM8 m
  let rhs ← byteReg m.reg
  setSubFlagsN (rhs.setWidth 32) (lhs.setWidth 32) ((rhs - lhs).setWidth 32) 8

/-- OR and AND of words, CMP r8, r/m8, and opcode 2A, which the source carries out
as a 32-bit SUB.  Here the flags are set before the result is stored. -/
def logicWord (op : U8) : CpuM Unit := do
  let m ← decodeModRM
  if op = 0x3A then cmpR8 m
  else
    let lhs ← readRM m
    let rhs ← getReg m.reg
    if op = 0x2A then
      setSubFlags rhs lhs (rhs - lhs)
      setReg m.reg (rhs - lhs)
    else
      let result := if op = 0x09 ∨ op = 0x0B then lhs ||| rhs else lhs &&& rhs
      setLogicFlags result
      if op = 0x0B ∨ op = 0x23 then setReg m.reg result else writeRM m result

/-- ADD, SUB, XOR and CMP of words, on operands that have been read; the flags
are set before the result is stored. -/
def arithWord (op : U8) (m : ModRM) (lhs rhs : U32) : CpuM Unit := do
  if op = 0x01 ∨ op = 0x03 then
    setAddFlags lhs rhs (lhs + rhs)
    if op = 0x01 then writeRM m (lhs + rhs) else setReg m.reg (lhs + rhs)
  else if op = 0x29 ∨ op = 0x39 then
    setSubFlags lhs rhs (lhs - rhs)
    doIf (op = 0x29) (writeRM m (lhs - rhs))
  else if op = 0x2B ∨ op = 0x3B then
    setSubFlags rhs lhs (rhs - lhs)
    doIf (op = 0x2B) (setReg m.reg (rhs - lhs))
  else
    setLogicFlags (lhs ^^^ rhs)
    -- the source sets ZF and SF once more
    updateFlags fun f => orIf (orIf f (lhs ^^^ rhs = 0) flagZF)
      ((lhs ^^^ rhs) &&& 0x80000000 ≠ 0) flagSF
    if op = 0x31 then writeRM m (lhs ^^^ rhs) else setReg m.reg (lhs ^^^ rhs)

/-- The arm of the word forms of ADD, SUB, XOR, CMP, MOV, LEA and MOV r/m, imm. -/
def wordForms (op : U8) (start : U32) (operand16 : Bool) : CpuM Unit := do
  let m ← decodeModRM
  if op = 0xC7 then movRMImm start operand16 m
  else if op = 0x8D then lea m
  else if op = 0x89 ∨ op = 0x8B then movRM op operand16 m
  else
    let rhs ← getReg m.reg
    let lhs ← readRM m
    arithWord op m lhs rhs

end IshGo.I386
