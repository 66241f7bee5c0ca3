/-
# `IshGo.I386.Step` — one step and a run of the interpreter

`CPU.Step` and `CPU.Run`: the prefixes, the dispatch on the opcode, and the count
of steps.  The arms of the two switches stand in the order of the source, since
some opcodes occur in two arms and the first one wins.
-/
import IshGo.Lib.Stays
import IshGo.I386.Alu
import IshGo.I386.X87

namespace IshGo.I386

variable {ok : Prop} {op : U8} {s s' : Machine} {α : Type}

/-- How a step that has not failed has ended. -/
inductive Trap where
  | none
  | int80
  deriving DecidableEq, Repr

/-- What the prefixes of an instruction have said. -/
structure Prefixes where
  operand16 : Bool
  rep : Bool
  deriving DecidableEq, Repr

def setSegmentBase (base : CPU → U32) : CpuM Unit :=
  modify fun s => { s with segmentBase := base s.toCPU }

/-- What one prefix says; `none` for a byte that is not a prefix. -/
def prefixByte (op : U8) (p : Prefixes) : CpuM (Option Prefixes) := do
  if op = 0x66 then return some { p with operand16 := true }
  else if op = 0x67 ∨ op = 0x26 ∨ op = 0x2E ∨ op = 0x36 ∨ op = 0x3E ∨ op = 0xF0 ∨ op = 0xF2 then
    return some p
  else if op = 0xF3 then return some { p with rep := true }
  else if op = 0x64 then
    setSegmentBase CPU.fsBase
    return some p
  else if op = 0x65 then
    setSegmentBase CPU.gsBase
    return some p
  else return none

/-- The prefix loop.  Each turn fetches a byte, so as many turns as there are bytes
from EIP to the end of memory, and one that fails, are enough. -/
def prefixLoop : Nat → Prefixes → CpuM (U8 × Prefixes)
  | 0, _ => throw .panic
  | fuel + 1, p => do
      let op ← fetch8
      let next ← prefixByte op p
      next.elim (return (op, p)) (prefixLoop fuel)

theorem require_bind [Decidable ok] (h : ok) (e : Fault)
    (f : Unit → CpuM α) : (require ok e >>= f) s = f () s := by
  rw [require, decide_eq_true h]
  rfl

theorem require_bind_error [Decidable ok] (h : ¬ ok)
    (e : Fault) (f : Unit → CpuM α) : (require ok e >>= f) s = .error e s := by
  rw [require, decide_eq_false h]
  rfl

theorem fetch8_ok (h : fetch8 s = .ok op s') :
    s.eip.toNat < s.mem.size.toNat ∧ s'.eip = s.eip + 1 ∧ s'.mem = s.mem := by
  have hread : memRead .fetch Memory.fetch8 s.eip 1 { s with eip := s.eip + 1 } = .ok op s' := h
  unfold memRead Memory.fetch8 Memory.readWith at hread
  cases hok : s.mem.checkAccess s.eip 1 protExec with
  | error e => rw [hok] at hread; cases hread
  | ok u =>
    rw [hok] at hread
    cases hread
    refine ⟨?_, rfl, rfl⟩
    unfold Memory.checkAccess Memory.check at hok
    split at hok
    · cases hok
    rename_i hfits
    split at hfits
    · cases hfits
    · bv_omega

theorem prefixByte_ok {p : Prefixes} {next : Option Prefixes}
    (h : prefixByte op p s = .ok next s') : s'.eip = s.eip ∧ s'.mem = s.mem := by
  unfold prefixByte at h
  repeat' split at h
  all_goals
    cases h
    exact ⟨rfl, rfl⟩

/-- The multi-byte NOP. -/
def nopRM : CpuM Unit := do
  let _ ← decodeModRM
  return ()

/-- The opcodes after `0F`. -/
def stepExtended (start : U32) : CpuM Unit := do
  let ext ← fetch8
  if 0x80 ≤ ext ∧ ext ≤ 0x8F then jccRel32 ext
  else if 0xC8 ≤ ext ∧ ext ≤ 0xCF then bswap ext
  else if 0x90 ≤ ext ∧ ext ≤ 0x9F then setcc ext
  else if ext = 0x1F then nopRM
  else if ext = 0xA4 then shiftDouble true
  else if ext = 0xAC then shiftDouble false
  else if ext = 0xBA then groupBA start
  else if ext = 0xA3 ∨ ext = 0xAB ∨ ext = 0xB3 ∨ ext = 0xBB then bitString ext
  else if ext = 0xBC ∨ ext = 0xBD then bitScan ext
  else if ext = 0xB1 then cmpxchg
  else if ext = 0xAF then imulRM
  else if ext = 0xB6 ∨ ext = 0xB7 ∨ ext = 0xBE ∨ ext = 0xBF then movExtend ext
  else throw (.unsupported "0F opcode" ext.toNat start)

/-! ## The switch

In four parts; each hands an opcode it has no arm for to the next. -/

/-- SBB, ADC, the logic operations and the word forms; the last arms. -/
def stepForms (op : U8) (start : U32) (p : Prefixes) : CpuM Unit :=
  if op = 0x1A then sbbR8
  else if op = 0x18 then sbbRM8
  else if op = 0x19 ∨ op = 0x1B then sbbWord op p.operand16
  else if op = 0x10 ∨ op = 0x12 then adcByte op
  else if op = 0x11 ∨ op = 0x13 then adcWord op
  else if op = 0x08 ∨ op = 0x0A then orByte op
  else if op = 0x20 ∨ op = 0x22 then andByte op
  else if op = 0x30 then xorByte
  else if op = 0x09 ∨ op = 0x0B ∨ op = 0x21 ∨ op = 0x23 ∨ op = 0x2A ∨ op = 0x3A then logicWord op
  else if op = 0x01 ∨ op = 0x03 ∨ op = 0x29 ∨ op = 0x2B ∨ op = 0x31 ∨ op = 0x33 ∨ op = 0x39 ∨
      op = 0x3B ∨ op = 0x89 ∨ op = 0x8B ∨ op = 0x8D ∨ op = 0xC7 then wordForms op start p.operand16
  else throw (.unsupported "opcode" op.toNat start)

/-- Segment registers, byte moves, and operations with an immediate. -/
def stepImmediate (op : U8) (start : U32) (p : Prefixes) : CpuM Unit :=
  if op = 0x8E then movSreg start
  else if op = 0x88 ∨ op = 0x8A then movByte op
  else if op = 0x0D ∨ op = 0x25 ∨ op = 0x35 then logicAccImm op p.operand16
  else if op = 0xA9 then testEAXImm
  else if op = 0xA8 then testALImm
  else if op = 0x3C then cmpALImm
  else if op = 0x81 ∨ op = 0x83 then group81 op p.operand16
  else if op = 0x85 then testWord
  else if op = 0x00 ∨ op = 0x02 then addByte op
  else if op = 0x04 ∨ op = 0x05 then addAccImm op
  else if op = 0x24 ∨ op = 0x25 then andAccImm op
  else if op = 0x0C ∨ op = 0x0D then orAccImm op
  else if op = 0x14 ∨ op = 0x15 then adcAccImm op
  else if op = 0x05 then addEAXImm
  else if op = 0x2D then subEAXImm
  else if op = 0x3D then cmpEAXImm
  else stepForms op start p

/-- The opcode groups, shifts, and strings. -/
def stepGroups (op : U8) (start : U32) (p : Prefixes) : CpuM Unit :=
  if op = 0x0F then stepExtended start
  else if op = 0xFE then groupFE start
  else if op = 0xFF then groupFF start
  else if op = 0xF6 ∨ op = 0xF7 then groupF6F7 op start p.operand16
  else if op = 0x69 ∨ op = 0x6B then imulImm op
  else if op = 0xC6 then movRM8Imm8 start
  else if op = 0xC0 ∨ op = 0xD0 then groupC0 op start
  else if op = 0xC1 ∨ op = 0xD1 ∨ op = 0xD3 then groupC1 op start p.operand16
  else if op = 0x38 then cmpByte
  else if op = 0x80 then group80 start
  else if op = 0x84 then testByte
  else if op = 0x87 then xchgRM
  else if 0xA0 ≤ op ∧ op ≤ 0xA3 then movMoffs op
  else if op = 0xA4 ∨ op = 0xA5 then movs op p.rep
  else if op = 0xAA ∨ op = 0xAB then stos op p.rep
  else stepImmediate op start p

/-- Flags and jumps. -/
def stepControl (op : U8) (start : U32) (p : Prefixes) : CpuM Unit :=
  if op = 0x9E then sahf
  else if op = 0xF8 then putFlag flagCF false
  else if op = 0xF9 then putFlag flagCF true
  else if op = 0xFA then putFlag flagIF false
  else if op = 0xFB then putFlag flagIF true
  else if op = 0xFC then putFlag flagDF false
  else if op = 0xFD then putFlag flagDF true
  else if op = 0xC3 then ret
  else if op = 0xC2 then retImm16
  else if op = 0xC9 then leave
  else if op = 0xE8 then callRel
  else if op = 0xE9 then jmpRel32
  else if op = 0xEB then jmpRel8
  else if 0x70 ≤ op ∧ op ≤ 0x7F then jccRel8 op
  else stepGroups op start p

/-- The first arms: registers, the stack, the x87. -/
def stepOpcode (op : U8) (start : U32) (p : Prefixes) : CpuM Unit :=
  if 0xB0 ≤ op ∧ op ≤ 0xB7 then movR8Imm8 op
  else if 0xB8 ≤ op ∧ op ≤ 0xBF then movR32Imm32 op
  else if 0x50 ≤ op ∧ op ≤ 0x57 then pushReg op
  else if 0x58 ≤ op ∧ op ≤ 0x5F then popReg op
  else if 0x40 ≤ op ∧ op ≤ 0x47 then incReg op
  else if 0x48 ≤ op ∧ op ≤ 0x4F then decReg op
  else if op = 0x68 then pushImm32
  else if op = 0x6A then pushImm8
  else if op = 0x90 then pure ()
  else if op = 0x99 then cdq
  else if 0x91 ≤ op ∧ op ≤ 0x97 then xchgEAX op
  else if op = 0xF4 then hlt
  else if op = 0xD8 ∨ op = 0xD9 ∨ op = 0xDB ∨ op = 0xDC ∨ op = 0xDD ∨ op = 0xDE ∨ op = 0xDF then
    stepX87 op start
  else stepControl op start p

/-- INT imm8, the last arm. -/
def stepInt (start : U32) : CpuM Unit := do
  let vector ← fetch8
  require (vector = 0x80 ∧ (← get).onSyscall) (.unsupported "interrupt" vector.toNat start)

/-- `c.Steps++` -/
def stepDone : CpuM Unit := modify fun s => { s with steps := s.steps + 1 }

/-- The beginning of a step, up to the dispatch. -/
def stepFetch : CpuM (U8 × Prefixes) := do
  modify fun s => { s with segmentBase := 0 }
  let s ← get
  let r ← prefixLoop (s.mem.size.toNat - s.eip.toNat + 1) { operand16 := false, rep := false }
  modify fun m => { m with lastEIP := s.eip, lastOpcode := r.1 }
  return r

/-- A step of a CPU that is not halted. -/
def stepRunning : CpuM Trap := do
  let start ← getEIP
  let r ← stepFetch
  if r.1 = 0xCD then
    stepInt start
    return .int80
  else
    stepOpcode r.1 start r.2
    stepDone
    return .none

/-- `Step`.  The log begins anew with each instruction. -/
def step : CpuM Trap := do
  modify fun s => { s with log := [] }
  if (← get).halted then return .none else stepRunning

end IshGo.I386
