/-
# `IshGo.I386.Cpu` — the interpreter's state and its small operations

`internal/i386/cpu.go`, the parts below the dispatch: registers, flags, fetching,
the stack, operand decoding.
-/
import IshGo.I386.Memory

namespace IshGo.I386

/-- The number of a general register. -/
abbrev Reg := BitVec 3

def EAX : Reg := 0
def ECX : Reg := 1
def EDX : Reg := 2
def EBX : Reg := 3
def ESP : Reg := 4
def EBP : Reg := 5
def ESI : Reg := 6
def EDI : Reg := 7

def flagCF : U32 := 1 <<< 0
def flagPF : U32 := 1 <<< 2
def flagZF : U32 := 1 <<< 6
def flagSF : U32 := 1 <<< 7
def flagIF : U32 := 1 <<< 9
def flagDF : U32 := 1 <<< 10
def flagOF : U32 := 1 <<< 11

/-- The five flags that an arithmetic instruction replaces. -/
def flagsArith : U32 := flagCF ||| flagPF ||| flagZF ||| flagSF ||| flagOF

/-- What a step can fail with.  `unsupported` carries the words, the number and
the instruction address of its text; `panic` is an index out of range in the
source. -/
inductive Fault where
  | mem (e : SpaceError)
  | stackUnderflow
  | divisionByZero (start : U32)
  | byteDivisionOverflow
  | signedByteDivisionOverflow
  | divisionOverflow
  | signedDivisionOverflow
  | x87StackOverflow
  | x87StackUnderflow
  | invalidX87StackRegister (index : U8)
  | invalidX87FXCH (index : U8) (start : U32)
  | unsupported (what : String) (code : Nat) (start : U32)
  | unsupportedX87 (op modrm : U8) (start : U32)
  | panic
  deriving DecidableEq, Repr

inductive AccessKind where
  | fetch
  | read
  | write
  deriving DecidableEq, Repr

/-- An access to memory that was carried out. -/
structure Access where
  kind : AccessKind
  addr : U32
  width : Nat
  deriving DecidableEq, Repr

structure CPU where
  regs : Reg → U32
  eip : U32
  eflags : U32
  halted : Bool
  steps : U64
  onSyscall : Bool
  fsBase : U32
  gsBase : U32
  fsSelector : U16
  gsSelector : U16
  segmentBase : U32
  lastEIP : U32
  lastOpcode : U8
  fpu : Reg → U64
  fpuTop : U8
  fpuCount : U8
  fpuStatus : U16
  fpuControl : U16

/-- `NewCPU`. -/
def CPU.new : CPU :=
  { regs := fun _ => 0, eip := 0, eflags := 2, halted := false, steps := 0, onSyscall := false
    fsBase := 0, gsBase := 0, fsSelector := 0, gsSelector := 0, segmentBase := 0
    lastEIP := 0, lastOpcode := 0
    fpu := fun _ => 0, fpuTop := 0, fpuCount := 0, fpuStatus := 0, fpuControl := 0x037f }

/-- A CPU with its memory.  `log` holds the accesses of the current instruction,
the latest first. -/
structure Machine extends CPU where
  mem : Memory
  log : List Access

abbrev CpuM := EStateM Fault Machine

/-! ## State -/

def Machine.setReg (m : Machine) (r : Reg) (v : U32) : Machine :=
  { m with regs := fun i => if i = r then v else m.regs i }

def getReg (r : Reg) : CpuM U32 := return (← get).regs r
def setReg (r : Reg) (v : U32) : CpuM Unit := modify (·.setReg r v)
def getFlags : CpuM U32 := return (← get).eflags
def setFlags (f : U32) : CpuM Unit := modify fun m => { m with eflags := f }
def getEIP : CpuM U32 := return (← get).eip
def setEIP (v : U32) : CpuM Unit := modify fun m => { m with eip := v }
def getSegmentBase : CpuM U32 := return (← get).segmentBase

/-- Fail unless the condition holds. -/
def require (ok : Bool) (e : Fault) : CpuM Unit := if ok then pure () else throw e

/-! ## Memory -/

/-- Read through one of the accessors of `Memory`. -/
def memRead {α : Type} (kind : AccessKind) (f : Memory → U32 → Except SpaceError α) (addr : U32)
    (width : Nat) : CpuM α := fun m =>
  match f m.mem addr with
  | .ok v => .ok v { m with log := ⟨kind, addr, width⟩ :: m.log }
  | .error e => .error (.mem e) m

/-- Write through one of the accessors of `Memory`. -/
def memWrite (f : Memory → U32 → Except SpaceError Memory) (addr : U32) (width : Nat) : CpuM Unit :=
  fun m =>
  match f m.mem addr with
  | .ok mem => .ok () { m with mem := mem, log := ⟨.write, addr, width⟩ :: m.log }
  | .error e => .error (.mem e) m

def read8 (addr : U32) : CpuM U8 := memRead .read Memory.read8 addr 1
def read16 (addr : U32) : CpuM U16 := memRead .read Memory.read16 addr 2
def read32 (addr : U32) : CpuM U32 := memRead .read Memory.read32 addr 4
def readBytes (addr : U32) (size : Nat) : CpuM (List U8) :=
  memRead .read (fun m a => m.readBytes a (BitVec.ofNat 32 size)) addr size

def write8 (addr : U32) (v : U8) : CpuM Unit := memWrite (fun m a => m.write8 a v) addr 1
def write16 (addr : U32) (v : U16) : CpuM Unit := memWrite (fun m a => m.write16 a v) addr 2
def write32 (addr : U32) (v : U32) : CpuM Unit := memWrite (fun m a => m.write32 a v) addr 4
def writeBytes (addr : U32) (v : List U8) : CpuM Unit :=
  memWrite (fun m a => m.writeBytes a v) addr v.length

/-- The instruction pointer advances whether or not the byte could be read. -/
def fetch8 : CpuM U8 := do
  let eip ← getEIP
  setEIP (eip + 1)
  memRead .fetch Memory.fetch8 eip 1

def fetch16 : CpuM U16 := do
  let lo ← fetch8
  let hi ← fetch8
  return lo.setWidth 16 ||| (hi.setWidth 16 <<< 8)

def fetch32 : CpuM U32 := do
  let b0 ← fetch8
  let b1 ← fetch8
  let b2 ← fetch8
  let b3 ← fetch8
  return b0.setWidth 32 ||| (b1.setWidth 32 <<< 8) ||| (b2.setWidth 32 <<< 16) |||
    (b3.setWidth 32 <<< 24)

def push (v : U32) : CpuM Unit := do
  let esp ← getReg ESP
  require (¬ esp < 4) .stackUnderflow
  setReg ESP (esp - 4)
  write32 (esp - 4) v

def pop : CpuM U32 := do
  let esp ← getReg ESP
  let v ← read32 esp
  setReg ESP (esp + 4)
  return v

/-! ## Flags

Each setter of the source is a function of the old flags here, and the setter
applies it. -/

/-- `if cond { EFLAGS |= flag }` -/
def orIf (f : U32) (cond : Bool) (flag : U32) : U32 := if cond then f ||| flag else f

/-- The parity loop: `b &= b - 1` clears the lowest bit that is set, so eight
turns empty a byte. -/
def parityLoop : Nat → U8 → Nat → Nat
  | 0, _, count => count
  | fuel + 1, b, count => if b ≠ 0 then parityLoop fuel (b &&& (b - 1)) (count + 1) else count

def evenParity (value : U32) : Bool := parityLoop 8 (value.setWidth 8) 0 % 2 = 0

/-- `uint32((uint64(1) << bits) - 1)` -/
def maskN (bits : Nat) : U32 := ((1 : U64) <<< bits - 1).setWidth 32

def addFlags (f a b result : U32) : U32 :=
  let f := f &&& ~~~flagsArith
  let f := orIf f (result < a) flagCF
  let f := orIf f (result = 0) flagZF
  let f := orIf f (result &&& 0x80000000 ≠ 0) flagSF
  let f := orIf f (~~~(a ^^^ b) &&& (a ^^^ result) &&& 0x80000000 ≠ 0) flagOF
  orIf f (evenParity result) flagPF

def logicFlagsN (f result : U32) (bits : Nat) : U32 :=
  let result := result &&& maskN bits
  let f := f &&& ~~~flagsArith
  let f := orIf f (result = 0) flagZF
  let f := orIf f (result &&& (1 <<< (bits - 1)) ≠ 0) flagSF
  orIf f (evenParity result) flagPF

def addFlagsN (f a b : U32) (bits : Nat) : U32 :=
  let mask : U64 := (1 : U64) <<< bits - 1
  let sum : U64 := (a &&& mask.setWidth 32).setWidth 64 + (b &&& mask.setWidth 32).setWidth 64
  let res : U32 := (sum &&& mask).setWidth 32
  let sign : U32 := 1 <<< (bits - 1)
  let f := f &&& ~~~flagsArith
  let f := orIf f (sum > mask) flagCF
  let f := orIf f (res = 0) flagZF
  let f := orIf f (res &&& sign ≠ 0) flagSF
  let f := orIf f (~~~(a ^^^ b) &&& (a ^^^ res) &&& sign ≠ 0) flagOF
  orIf f (evenParity res) flagPF

def subFlagsN (f a b result : U32) (bits : Nat) : U32 :=
  let mask := maskN bits
  let res := result &&& mask
  let sign : U32 := 1 <<< (bits - 1)
  let f := f &&& ~~~flagsArith
  let f := orIf f ((a &&& mask) < (b &&& mask)) flagCF
  let f := orIf f (res = 0) flagZF
  let f := orIf f (res &&& sign ≠ 0) flagSF
  let f := orIf f ((a ^^^ b) &&& (a ^^^ res) &&& sign ≠ 0) flagOF
  orIf f (evenParity res) flagPF

def logicFlags (f result : U32) : U32 :=
  let f := f &&& ~~~flagsArith
  let f := orIf f (result = 0) flagZF
  let f := orIf f (result &&& 0x80000000 ≠ 0) flagSF
  orIf f (evenParity result) flagPF

def adcFlagsN (f a b carry : U32) (bits : Nat) : U32 :=
  let mask : U64 := (1 : U64) <<< bits - 1
  let sum : U64 := (a &&& mask.setWidth 32).setWidth 64 + (b &&& mask.setWidth 32).setWidth 64 +
    carry.setWidth 64
  let res : U32 := (sum &&& mask).setWidth 32
  let sign : U32 := 1 <<< (bits - 1)
  let f := f &&& ~~~flagsArith
  let f := orIf f (sum > mask) flagCF
  let f := orIf f (res = 0) flagZF
  let f := orIf f (res &&& sign ≠ 0) flagSF
  let f := orIf f (~~~(a ^^^ b) &&& (a ^^^ res) &&& sign ≠ 0 ∨
    (carry ≠ 0 ∧ (a ^^^ b) &&& sign = 0 ∧ (a ^^^ res) &&& sign ≠ 0)) flagOF
  orIf f (evenParity res) flagPF

def sbbFlagsN (f a b borrow result : U32) (bits : Nat) : U32 :=
  let mask := maskN bits
  let subtrahend := b + borrow
  let res := result &&& mask
  let sign : U32 := 1 <<< (bits - 1)
  let f := f &&& ~~~flagsArith
  let f := orIf f ((a &&& mask) < subtrahend) flagCF
  let f := orIf f (res = 0) flagZF
  let f := orIf f (res &&& sign ≠ 0) flagSF
  let f := orIf f ((a ^^^ subtrahend) &&& (a ^^^ res) &&& sign ≠ 0) flagOF
  orIf f (evenParity res) flagPF

def subFlags (f a b result : U32) : U32 :=
  let f := f &&& ~~~flagsArith
  let f := orIf f (a < b) flagCF
  let f := orIf f (result = 0) flagZF
  let f := orIf f (result &&& 0x80000000 ≠ 0) flagSF
  let f := orIf f ((a ^^^ b) &&& (a ^^^ result) &&& 0x80000000 ≠ 0) flagOF
  orIf f (evenParity result) flagPF

def shiftFlagsN (f result : U32) (cf of : Bool) (bits : Nat) : U32 :=
  let result := result &&& maskN bits
  let f := f &&& ~~~flagsArith
  let f := orIf f cf flagCF
  let f := orIf f of flagOF
  let f := orIf f (result = 0) flagZF
  let f := orIf f (result &&& (1 <<< (bits - 1)) ≠ 0) flagSF
  orIf f (evenParity result) flagPF

def shiftFlags (f result : U32) (cf of : Bool) : U32 :=
  let f := f &&& ~~~flagsArith
  let f := orIf f cf flagCF
  let f := orIf f of flagOF
  let f := orIf f (result = 0) flagZF
  let f := orIf f (result &&& 0x80000000 ≠ 0) flagSF
  orIf f (evenParity result) flagPF

/-- Replace the flags by a function of the flags. -/
def updateFlags (g : U32 → U32) : CpuM Unit := modify fun m => { m with eflags := g m.eflags }

def setAddFlags (a b result : U32) : CpuM Unit := updateFlags (addFlags · a b result)
def setLogicFlagsN (result : U32) (bits : Nat) : CpuM Unit := updateFlags (logicFlagsN · result bits)
/-- The source passes the result as well and computes it anew. -/
def setAddFlagsN (a b _result : U32) (bits : Nat) : CpuM Unit := updateFlags (addFlagsN · a b bits)
def setSubFlagsN (a b result : U32) (bits : Nat) : CpuM Unit :=
  updateFlags (subFlagsN · a b result bits)
def setLogicFlags (result : U32) : CpuM Unit := updateFlags (logicFlags · result)
/-- The source passes the result as well and computes it anew. -/
def setADCFlagsN (a b carry _result : U32) (bits : Nat) : CpuM Unit :=
  updateFlags (adcFlagsN · a b carry bits)
def setSBBFlagsN (a b borrow result : U32) (bits : Nat) : CpuM Unit :=
  updateFlags (sbbFlagsN · a b borrow result bits)
def setSubFlags (a b result : U32) : CpuM Unit := updateFlags (subFlags · a b result)
def setShiftFlagsN (result : U32) (cf of : Bool) (bits : Nat) : CpuM Unit :=
  updateFlags (shiftFlagsN · result cf of bits)
def setShiftFlags (result : U32) (cf of : Bool) : CpuM Unit :=
  updateFlags (shiftFlags · result cf of)

/-- `EFLAGS |= flag` or `EFLAGS &^= flag`. -/
def putFlag (flag : U32) (on : Bool) : CpuM Unit :=
  updateFlags fun f => if on then f ||| flag else f &&& ~~~flag

/-- The condition codes of `Jcc` and `SETcc`. -/
def conditionOf (f : U32) (op : U8) : Bool :=
  let zf : Bool := f &&& flagZF ≠ 0
  let cf : Bool := f &&& flagCF ≠ 0
  let sf : Bool := f &&& flagSF ≠ 0
  let of : Bool := f &&& flagOF ≠ 0
  match op.toNat with
  | 0x0 => of
  | 0x1 => !of
  | 0x2 => cf
  | 0x3 => !cf
  | 0x4 => zf
  | 0x5 => !zf
  | 0x6 => cf || zf
  | 0x7 => !cf && !zf
  | 0x8 => sf
  | 0x9 => !sf
  | 0xA => f &&& flagPF ≠ 0
  | 0xB => f &&& flagPF = 0
  | 0xC => sf != of
  | 0xD => sf == of
  | 0xE => zf || sf != of
  | 0xF => !zf && sf == of
  | _ => false

def condition (op : U8) : CpuM Bool := return conditionOf (← getFlags) op

/-- The carry flag as the number `0` or `1`. -/
def carryIn : CpuM U32 := return if (← getFlags) &&& flagCF ≠ 0 then 1 else 0

/-! ## Operands -/

def byteReg (r : Reg) : CpuM U8 := do
  if r < 4 then return (← getReg r).setWidth 8
  else return ((← getReg (r - 4)) >>> 8).setWidth 8

def setByteReg (r : Reg) (v : U8) : CpuM Unit := do
  if r < 4 then setReg r (((← getReg r) &&& ~~~(0xff : U32)) ||| v.setWidth 32)
  else setReg (r - 4) (((← getReg (r - 4)) &&& ~~~(0xff00 : U32)) ||| (v.setWidth 32 <<< 8))

/-- The upper half of a register kept, the lower half replaced. -/
def setReg16 (r : Reg) (v : U16) : CpuM Unit := do
  setReg r (((← getReg r) &&& 0xffff0000) ||| v.setWidth 32)

/-- A decoded operand: the register field, and a register or an address. -/
structure ModRM where
  reg : Reg
  rm : Reg
  isReg : Bool
  regVal : U32
  addr : U32
  deriving DecidableEq, Repr

/-- The displacement that `mod` asks for, added to the base: a sign-extended
byte, a word, or none. -/
def addDisp (mod : U8) (base : U32) : CpuM U32 := do
  if mod = 1 then return base + (← fetch8).signExtend 32
  else if mod = 2 then return base + (← fetch32)
  else return base

/-- The scaled index of a SIB byte; index `4` is no index. -/
def scaledIndex (sib : U8) : CpuM U32 := do
  let index : Reg := sib.extractLsb' 3 3
  if index ≠ 4 then return (← getReg index) * (1 <<< (sib >>> 6).toNat) else return 0

/-- The address given by a SIB byte and its displacement. -/
def sibAddr (mod : U8) : CpuM U32 := do
  let sib ← fetch8
  let baseReg : Reg := sib.extractLsb' 0 3
  let scaled ← scaledIndex sib
  if mod = 0 ∧ baseReg = 5 then return scaled + (← fetch32)
  else addDisp mod (scaled + (← getReg baseReg))

/-- The address of a memory operand. -/
def operandAddr (mod : U8) (rm : Reg) : CpuM U32 := do
  if rm = 4 then sibAddr mod
  else if mod = 0 ∧ rm = 5 then fetch32
  else addDisp mod (← getReg rm)

/-- The decoder of the x87 instructions, whose ModRM byte has been fetched. -/
def decodeModRMByte (v : U8) : CpuM ModRM := do
  let r : Reg := v.extractLsb' 3 3
  let rm : Reg := v.extractLsb' 0 3
  if v >>> 6 = 3 then return ⟨r, rm, true, ← getReg rm, 0⟩
  else return ⟨r, rm, false, 0, ← operandAddr (v >>> 6) rm⟩

/-- The decoder of the integer instructions.  The source repeats the text of
`decodeModRMByte` after the fetch. -/
def decodeModRM : CpuM ModRM := do decodeModRMByte (← fetch8)

def readRM8 (m : ModRM) : CpuM U8 := do
  if m.isReg then byteReg m.rm else read8 (m.addr + (← getSegmentBase))

def writeRM8 (m : ModRM) (v : U8) : CpuM Unit := do
  if m.isReg then setByteReg m.rm v else write8 (m.addr + (← getSegmentBase)) v

def readRM16 (m : ModRM) : CpuM U16 := do
  if m.isReg then return (← getReg m.rm).setWidth 16 else read16 (m.addr + (← getSegmentBase))

def writeRM16 (m : ModRM) (v : U16) : CpuM Unit := do
  if m.isReg then setReg16 m.rm v else write16 (m.addr + (← getSegmentBase)) v

/-- In register form this is the value the register had when it was decoded. -/
def readRM (m : ModRM) : CpuM U32 := do
  if m.isReg then return m.regVal else read32 (m.addr + (← getSegmentBase))

def writeRM (m : ModRM) (v : U32) : CpuM Unit := do
  if m.isReg then setReg m.rm v else write32 (m.addr + (← getSegmentBase)) v

end IshGo.I386
