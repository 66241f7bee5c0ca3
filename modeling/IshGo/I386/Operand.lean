/-
# `IshGo.I386.Operand` — operands, and what the helpers do to them

The helpers of `IshGo.I386.Cpu` come in three widths: `readRM8`, `readRM16` and `readRM`,
`byteReg` and its companions.  Here an operand is a register, an address or an immediate, with a
`value` in each width, and a store replaces that many bytes of it and nothing else.
-/
import IshGo.Lib.Ensures
import IshGo.I386.Access
import IshGo.I386.Flags
import IshGo.I386.Step

namespace IshGo.I386

open Lib Machine BitVec

variable {Q : Unit → Machine → Prop} {addr v : U32} {n : Nat} {r : Reg}
variable {b m : Nat}

/-! ## Operands -/

inductive Width where
  | byte
  | word
  | dword
  deriving DecidableEq, Repr

namespace Width

@[reducible] def bits : Width → Nat
  | byte => 8
  | word => 16
  | dword => 32

@[reducible] def bytes : Width → Nat
  | byte => 1
  | word => 2
  | dword => 4

theorem bits_pos (w : Width) : 0 < w.bits := by cases w <;> decide

theorem bits_le (w : Width) : w.bits ≤ 32 := by cases w <;> decide

theorem bits_eq (w : Width) : w.bits = 8 * w.bytes := by cases w <;> rfl

/-- The width that the prefix 66 selects, or its absence. -/
@[reducible] def ofPrefix : Bool → Width
  | true => word
  | false => dword

end Width

def putReg (regs : Reg → U32) (r : Reg) (v : U32) : Reg → U32 := fun i => if i = r then v else regs i

/-- A byte register: the low byte of one of the first four registers, or the second byte. -/
def byteOf (regs : Reg → U32) (r : Reg) : U8 :=
  if r < 4 then (regs r).setWidth 8 else (regs (r - 4) >>> 8).setWidth 8

def putByte (regs : Reg → U32) (r : Reg) (v : U8) : Reg → U32 :=
  if r < 4 then putReg regs r ((regs r &&& ~~~(0xff : U32)) ||| v.setWidth 32)
  else putReg regs (r - 4) ((regs (r - 4) &&& ~~~(0xff00 : U32)) ||| (v.setWidth 32 <<< 8))

def putWord (regs : Reg → U32) (r : Reg) (v : U16) : Reg → U32 :=
  putReg regs r ((regs r &&& 0xffff0000) ||| v.setWidth 32)

def regValue (regs : Reg → U32) (r : Reg) : (w : Width) → BitVec w.bits
  | .byte => byteOf regs r
  | .word => (regs r).setWidth 16
  | .dword => regs r

def putRegValue (regs : Reg → U32) (r : Reg) : (w : Width) → BitVec w.bits → Reg → U32
  | .byte => putByte regs r
  | .word => putWord regs r
  | .dword => putReg regs r

inductive Operand where
  | reg (r : Reg)
  | mem (addr : U32)
  | imm (v : U32)
  deriving DecidableEq, Repr

namespace Operand

def value (w : Width) (regs : Reg → U32) (data : U32 → U8) : Operand → BitVec w.bits
  | reg r => regValue regs r w
  | mem addr => leValue w.bits (loadBytes data addr w.bytes)
  | imm v => v.setWidth w.bits

def storeRegs (w : Width) (v : BitVec w.bits) (regs : Reg → U32) : Operand → Reg → U32
  | reg r => putRegValue regs r w v
  | mem _ | imm _ => regs

def storeData (w : Width) (v : BitVec w.bits) (data : U32 → U8) : Operand → U32 → U8
  | mem addr => storeBytes data addr (leBytes v w.bytes)
  | reg _ | imm _ => data

def access (kind : AccessKind) (w : Width) : Operand → List Access
  | mem addr => [⟨kind, addr, w.bytes⟩]
  | reg _ | imm _ => []

end Operand

def ModRM.operand (m : ModRM) (base : U32) : Operand :=
  if m.isReg then .reg m.rm else .mem (m.addr + base)

/-- A register operand was decoded with the value that the register has. -/
def ModRM.Current (m : ModRM) (regs : Reg → U32) : Prop := m.isReg = true → m.regVal = regs m.rm

/-! ## Changes of a machine -/

namespace Machine

variable (s : Machine)

def withRegs (regs : Reg → U32) : Machine := { s with regs := regs }
def withFlags (f : U32) : Machine := { s with eflags := f }
def withEIP (eip : U32) : Machine := { s with eip := eip }
def withData (data : U32 → U8) : Machine := { s with mem := { s.mem with data := data } }
def logged (l : List Access) : Machine := { s with log := l ++ s.log }

def code (i : Nat) : U8 := s.mem.data (s.eip + BitVec.ofNat 32 i)

/-- The accesses to `n` bytes of code, the latest first. -/
def fetchLog (eip : U32) : Nat → List Access
  | 0 => []
  | n + 1 => ⟨.fetch, eip + BitVec.ofNat 32 n, 1⟩ :: fetchLog eip n

/-- `n` bytes of code fetched. -/
def fetched (n : Nat) : Machine :=
  { s with eip := s.eip + BitVec.ofNat 32 n, log := fetchLog s.eip n ++ s.log }

def accesses : List Access := s.log.filter (·.kind ≠ .fetch)

@[simp] theorem withFlags_eflags (x) : (s.withFlags x).eflags = x := rfl

@[simp] theorem fetched_eip (n) : (s.fetched n).eip = s.eip + BitVec.ofNat 32 n := rfl
@[simp] theorem fetched_mem (n) : (s.fetched n).mem = s.mem := rfl

theorem fetchLog_add (eip : U32) (m n : Nat) :
    fetchLog (eip + BitVec.ofNat 32 m) n ++ fetchLog eip m = fetchLog eip (m + n) := by
  induction n with
  | zero => rfl
  | succ n ih =>
    rw [fetchLog, List.cons_append, ih, BitVec.add_assoc, ← BitVec.ofNat_add]
    rfl

theorem fetched_zero : s.fetched 0 = s := by
  rw [fetched, show s.eip + BitVec.ofNat 32 0 = s.eip from BitVec.add_zero _]
  rfl

theorem fetched_fetched (m n : Nat) : (s.fetched m).fetched n = s.fetched (m + n) := by
  rw [fetched, fetched_eip, BitVec.add_assoc, ← BitVec.ofNat_add, fetched, fetched,
    ← fetchLog_add, List.append_assoc]

@[simp] theorem fetched_code (n i : Nat) : (s.fetched n).code i = s.code (n + i) := by
  rw [code, code, fetched_mem, fetched_eip, BitVec.ofNat_add, BitVec.add_assoc]

@[simp] theorem accesses_withFlags (x) : (s.withFlags x).accesses = s.accesses := rfl

theorem filter_fetchLog (eip : U32) (n : Nat) : (fetchLog eip n).filter (·.kind ≠ .fetch) = [] := by
  induction n with
  | zero => rfl
  | succ n ih => exact ih

@[simp] theorem accesses_fetched (n) : (s.fetched n).accesses = s.accesses := by
  rw [accesses, fetched, List.filter_append, filter_fetchLog, List.nil_append, accesses]

end Machine

/-! ## What cannot fail -/

section Total
variable {s : Machine}

@[simp] theorem ensures_getReg {Q : U32 → Machine → Prop} :
    Ensures (getReg r) s Q ↔ Q (s.regs r) s := ensures_pure

@[simp] theorem ensures_setReg :
    Ensures (setReg r v) s Q ↔ Q () (s.withRegs (putReg s.regs r v)) := ensures_modify

@[simp] theorem ensures_getFlags {Q : U32 → Machine → Prop} :
    Ensures getFlags s Q ↔ Q s.eflags s := ensures_pure

@[simp] theorem ensures_setFlags {f : U32} :
    Ensures (setFlags f) s Q ↔ Q () (s.withFlags f) := ensures_modify

@[simp] theorem ensures_updateFlags {g : U32 → U32} :
    Ensures (updateFlags g) s Q ↔ Q () (s.withFlags (g s.eflags)) := ensures_modify

@[simp] theorem ensures_getEIP {Q : U32 → Machine → Prop} :
    Ensures getEIP s Q ↔ Q s.eip s := ensures_pure

@[simp] theorem ensures_getSegmentBase {Q : U32 → Machine → Prop} :
    Ensures getSegmentBase s Q ↔ Q s.segmentBase s := ensures_pure

def carryFlag (f : U32) : Bool := f &&& flagCF ≠ 0

@[simp] theorem ensures_carryIn {Q : U32 → Machine → Prop} :
    Ensures carryIn s Q ↔ Q (carryWord (carryFlag s.eflags)) s := by
  have h : (if s.eflags &&& flagCF ≠ 0 then 1 else 0) = carryWord (carryFlag s.eflags) := by
    simp [carryWord, carryFlag]
  rw [← h]
  exact ensures_pure

@[simp] theorem ensures_condition {op : U8} {Q : Bool → Machine → Prop} :
    Ensures (condition op) s Q ↔ Q (conditionOf s.eflags op) s := ensures_pure

@[simp] theorem ensures_require {ok : Bool} {e : Fault} :
    Ensures (require ok e) s Q ↔ (ok = true → Q () s) := by
  unfold require
  rw [ensures_ite]
  simp

@[simp] theorem ensures_byteReg {Q : U8 → Machine → Prop} :
    Ensures (byteReg r) s Q ↔ Q (byteOf s.regs r) s := by
  unfold byteReg byteOf
  split
  · exact ensures_pure
  · exact ensures_pure

@[simp] theorem ensures_setByteReg {v : U8} :
    Ensures (setByteReg r v) s Q ↔ Q () (s.withRegs (putByte s.regs r v)) := by
  unfold setByteReg putByte
  split
  · exact ensures_modify
  · exact ensures_modify

@[simp] theorem ensures_setReg16 {v : U16} :
    Ensures (setReg16 r v) s Q ↔ Q () (s.withRegs (putWord s.regs r v)) := ensures_modify

end Total

/-! ## Memory and code -/

section Partial
variable {s : Machine}

theorem map_readWith_value {m : Memory} {ok : Except SpaceError Unit}
    {v : BitVec b} (h : (m.readWith ok addr n).map (leValue b) = .ok v) :
    v = leValue b (loadBytes m.data addr n) := by
  cases hr : m.readWith ok addr n with
  | error e =>
    rw [hr] at h
    cases h
  | ok bs =>
    rw [hr] at h
    cases h
    rw [(Memory.readWith_ok hr).2]

theorem ensures_memRead {kind : AccessKind} {f : Memory → U32 → Except SpaceError (BitVec b)}
    {Q : BitVec b → Machine → Prop}
    (hf : ∀ v, f s.mem addr = .ok v → v = leValue b (loadBytes s.mem.data addr n))
    (h : Q (leValue b (loadBytes s.mem.data addr n)) (s.logged [⟨kind, addr, n⟩])) :
    Ensures (memRead kind f addr n) s Q := by
  intro v t hrun
  unfold memRead at hrun
  split at hrun
  · rename_i hv
    cases hrun
    rw [hf v hv]
    exact h
  · cases hrun

theorem ensures_read8 {Q : U8 → Machine → Prop}
    (h : Q ((Operand.mem addr).value .byte s.regs s.mem.data) (s.logged [⟨.read, addr, 1⟩])) :
    Ensures (read8 addr) s Q := ensures_memRead (fun _ => map_readWith_value) h

theorem ensures_read16 {Q : U16 → Machine → Prop}
    (h : Q ((Operand.mem addr).value .word s.regs s.mem.data) (s.logged [⟨.read, addr, 2⟩])) :
    Ensures (read16 addr) s Q := ensures_memRead (fun _ => map_readWith_value) h

theorem ensures_read32 {Q : U32 → Machine → Prop}
    (h : Q ((Operand.mem addr).value .dword s.regs s.mem.data) (s.logged [⟨.read, addr, 4⟩])) :
    Ensures (read32 addr) s Q := ensures_memRead (fun _ => map_readWith_value) h

theorem ensures_memWrite {bytes : List U8} (hlen : bytes.length < 2 ^ 32)
    (h : Q () ((s.withData (storeBytes s.mem.data addr bytes)).logged [⟨.write, addr, bytes.length⟩])) :
    Ensures (memWrite (fun m a => m.writeBytes a bytes) addr bytes.length) s Q := by
  intro v t hrun
  unfold memWrite at hrun
  split at hrun
  · rename_i mem hmem
    obtain rfl := Memory.writeBytes_result hmem hlen
    cases hrun
    exact h
  · cases hrun

theorem ensures_write {w : Nat} {v : BitVec w} (hn : n ≤ 4)
    (h : Q () ((s.withData (storeBytes s.mem.data addr (leBytes v n))).logged [⟨.write, addr, n⟩])) :
    Ensures (memWrite (fun m a => m.writeBytes a (leBytes v n)) addr n) s Q := by
  have hlen : (leBytes v n).length = n := length_leBytes n v
  have hrule := @ensures_memWrite Q addr s (leBytes v n) (by rw [hlen]; omega)
  rw [hlen] at hrule
  exact hrule h

end Partial

/-! ## Code -/

/-- The `n` bytes at EIP can be fetched. -/
def Machine.Fetches (s : Machine) (n : Nat) : Prop :=
  ∀ i < n, (s.mem.fetch8 (s.eip + BitVec.ofNat 32 i)).isOk = true

/-- `x` fetches `n` bytes, no more and no less, and gives `a`; if one of them cannot be fetched it
fails. -/
structure Takes {α : Type} (x : CpuM α) (s : Machine) (n : Nat) (a : α) : Prop where
  ok : s.Fetches n → x s = .ok a (s.fetched n)
  fails : ¬ s.Fetches n → ∃ e t, x s = .error e t

def immAt (w : Width) (code : Nat → U8) (k : Nat) : BitVec w.bits :=
  leValue w.bits ((List.range w.bytes).map fun i => code (k + i))

section Takes
variable {α β : Type} {s : Machine} {k : Nat} {x : CpuM α} {f : α → CpuM β} {a : α} {b : β}

theorem Machine.fetches_add : s.Fetches (n + k) ↔ s.Fetches n ∧ (s.fetched n).Fetches k := by
  have hshift (i : Nat) : (s.fetched n).eip + BitVec.ofNat 32 i = s.eip + BitVec.ofNat 32 (n + i) := by
    rw [fetched_eip, BitVec.add_assoc, ← BitVec.ofNat_add]
  constructor
  · intro h
    exact ⟨fun i hi => h i (by omega), fun i hi => hshift i ▸ h (n + i) (by omega)⟩
  · rintro ⟨h, h'⟩ i hi
    rcases Nat.lt_or_ge i n with hlt | hge
    · exact h i hlt
    · have hi' := h' (i - n) (by omega)
      rwa [hshift, Nat.add_sub_of_le hge] at hi'

theorem takes_pure : Takes (pure a) s 0 a :=
  ⟨fun _ => by rw [s.fetched_zero]; rfl, fun h => absurd (fun _ hi => absurd hi (Nat.not_lt_zero _)) h⟩

theorem Takes.bind (h : Takes x s n a) (k : Nat) (h' : Takes (f a) (s.fetched n) k b) (hm : m = n + k) :
    Takes (x >>= f) s m b where
  ok hf := by
    subst hm
    obtain ⟨hn, hk⟩ := fetches_add.mp hf
    rw [bind_of_ok (h.ok hn), h'.ok hk, fetched_fetched]
  fails hf := by
    subst hm
    by_cases hn : s.Fetches n
    · obtain ⟨e, t, he⟩ := h'.fails fun hk => hf (fetches_add.mpr ⟨hn, hk⟩)
      exact ⟨e, t, (bind_of_ok (h.ok hn)).trans he⟩
    · obtain ⟨e, t, he⟩ := h.fails hn
      exact ⟨e, t, bind_of_error he⟩

/-- A part that fetches nothing and cannot fail. -/
theorem Takes.after (h : x s = .ok a s) (h' : Takes (f a) s m b) : Takes (x >>= f) s m b :=
  ⟨fun hf => (bind_of_ok h).trans (h'.ok hf), fun hf => by rw [bind_of_ok h]; exact h'.fails hf⟩

theorem Takes.ensures {Q : α → Machine → Prop} (h : Takes x s n a) (hQ : Q a (s.fetched n)) : Ensures x s Q := by
  intro b t hrun
  by_cases hf : s.Fetches n
  · cases (h.ok hf).symm.trans hrun
    exact hQ
  · obtain ⟨e, u, he⟩ := h.fails hf
    cases he.symm.trans hrun

theorem takes_fetch8 : Takes fetch8 s 1 (s.code 0) := by
  have hrun : fetch8 s = memRead .fetch Memory.fetch8 s.eip 1 (s.withEIP (s.eip + 1)) := rfl
  have hzero : s.eip + BitVec.ofNat 32 0 = s.eip := BitVec.add_zero _
  have hfetched : s.fetched 1 = (s.withEIP (s.eip + 1)).logged [⟨.fetch, s.eip, 1⟩] := by
    rw [fetched, fetchLog, hzero]
    rfl
  have hone : s.Fetches 1 ↔ (s.mem.fetch8 s.eip).isOk = true := by
    refine ⟨fun h => hzero ▸ h 0 Nat.one_pos, fun h i hi => ?_⟩
    rwa [Nat.lt_one_iff.mp hi, hzero]
  cases hv : s.mem.fetch8 s.eip with
  | ok v =>
    have hcode : v = s.code 0 := by
      rw [code, hzero, map_readWith_value hv]
      simp [loadBytes, leValue]
    refine ⟨fun _ => ?_, fun hf => absurd (hone.mpr (hv ▸ rfl)) hf⟩
    rw [hrun, hfetched, ← hcode, memRead, show (s.withEIP (s.eip + 1)).mem.fetch8 s.eip = .ok v from hv]
    rfl
  | error e =>
    refine ⟨fun hf => ?_, fun _ => ⟨.mem e, s.withEIP (s.eip + 1), ?_⟩⟩
    · have hok := hone.mp hf
      rw [hv] at hok
      cases hok
    · rw [hrun, memRead, show (s.withEIP (s.eip + 1)).mem.fetch8 s.eip = .error e from hv]

theorem takes_fetch16 : Takes fetch16 s 2 (immAt .word s.code 0) := by
  have himm : immAt .word s.code 0 = (s.code 0).setWidth 16 ||| ((s.code 1).setWidth 16 <<< 8) := by
    simp [immAt, Width.bytes, Width.bits, List.range_succ, leValue]
  rw [himm]
  refine takes_fetch8.bind 1 (takes_fetch8.bind 0 ?_ rfl) rfl
  simp only [fetched_code]
  exact takes_pure

theorem takes_fetch32 : Takes fetch32 s 4 (immAt .dword s.code 0) := by
  have himm : immAt .dword s.code 0 = (s.code 0).setWidth 32 ||| ((s.code 1).setWidth 32 <<< 8) |||
      ((s.code 2).setWidth 32 <<< 16) ||| ((s.code 3).setWidth 32 <<< 24) := by
    simp [immAt, Width.bytes, Width.bits, List.range_succ, leValue, shiftLeft_or_distrib,
      BitVec.or_assoc, ← BitVec.shiftLeft_add]
  rw [himm]
  refine takes_fetch8.bind 3 (takes_fetch8.bind 2 (takes_fetch8.bind 1 (takes_fetch8.bind 0 ?_ rfl) rfl) rfl) rfl
  simp only [fetched_fetched, fetched_code]
  exact takes_pure

theorem ensures_fetch8 {Q : U8 → Machine → Prop} (h : Q (s.code 0) (s.fetched 1)) : Ensures fetch8 s Q :=
  takes_fetch8.ensures h

theorem ensures_fetch16 {Q : U16 → Machine → Prop} (h : Q (immAt .word s.code 0) (s.fetched 2)) :
    Ensures fetch16 s Q := takes_fetch16.ensures h

theorem ensures_fetch32 {Q : U32 → Machine → Prop} (h : Q (immAt .dword s.code 0) (s.fetched 4)) :
    Ensures fetch32 s Q := takes_fetch32.ensures h

end Takes

/-! ## ModRM

What the bytes of an operand say, `code 0` being the ModRM byte. -/

/-- The displacement that `mod` asks for. -/
def dispAt (mod : U8) (code : Nat → U8) (k : Nat) : U32 :=
  if mod = 1 then (code k).signExtend 32 else if mod = 2 then immAt .dword code k else 0

def dispLength (mod : U8) : Nat := if mod = 1 then 1 else if mod = 2 then 4 else 0

def indexOf (regs : Reg → U32) (sib : U8) : U32 :=
  let index : Reg := sib.extractLsb' 3 3
  if index ≠ 4 then regs index * (1 <<< (sib >>> 6).toNat) else 0

/-- The base register of a SIB byte is absent, and a displacement stands for it. -/
def NoBase (mod sib : U8) : Prop := mod = 0 ∧ sib.extractLsb' 0 3 = (5 : Reg)

instance (mod sib : U8) : Decidable (NoBase mod sib) := inferInstanceAs (Decidable (_ ∧ _))

def addrAt (regs : Reg → U32) (code : Nat → U8) : U32 :=
  let mod := code 0 >>> 6
  let rm : Reg := (code 0).extractLsb' 0 3
  if rm = 4 then
    if NoBase mod (code 1) then indexOf regs (code 1) + immAt .dword code 2
    else indexOf regs (code 1) + regs ((code 1).extractLsb' 0 3) + dispAt mod code 2
  else if mod = 0 ∧ rm = 5 then immAt .dword code 1
  else regs rm + dispAt mod code 1

def addrLength (code : Nat → U8) : Nat :=
  let mod := code 0 >>> 6
  let rm : Reg := (code 0).extractLsb' 0 3
  if rm = 4 then if NoBase mod (code 1) then 5 else 1 + dispLength mod
  else if mod = 0 ∧ rm = 5 then 4
  else dispLength mod

def digitAt (code : Nat → U8) : Reg := (code 0).extractLsb' 3 3

def modRMAt (regs : Reg → U32) (code : Nat → U8) : ModRM :=
  let rm : Reg := (code 0).extractLsb' 0 3
  let isReg : Bool := code 0 >>> 6 = 3
  ⟨digitAt code, rm, isReg, if isReg then regs rm else 0, if isReg then 0 else addrAt regs code⟩

def modRMLength (code : Nat → U8) : Nat := if code 0 >>> 6 = 3 then 1 else 1 + addrLength code

theorem modRMAt_current (regs : Reg → U32) (code : Nat → U8) : (modRMAt regs code).Current regs :=
  fun h => if_pos h

section Decode
variable {s : Machine}

theorem immAt_fetched (w : Width) (n k : Nat) : immAt w (s.fetched n).code k = immAt w s.code (n + k) := by
  simp only [immAt, fetched_code, Nat.add_assoc]

theorem takes_addDisp (mod : U8) (base : U32) :
    Takes (addDisp mod base) s (dispLength mod) (base + dispAt mod s.code 0) := by
  unfold addDisp dispAt dispLength
  split
  · exact takes_fetch8.bind 0 takes_pure rfl
  split
  · exact takes_fetch32.bind 0 takes_pure rfl
  · rw [show base + 0 = base from BitVec.add_zero base]
    exact takes_pure

theorem scaledIndex_run (sib : U8) : scaledIndex sib s = .ok (indexOf s.regs sib) s := by
  unfold scaledIndex indexOf
  dsimp only
  split <;> rfl

theorem dispAt_fetched (mod : U8) (n k : Nat) : dispAt mod (s.fetched n).code k = dispAt mod s.code (n + k) := by
  simp only [dispAt, fetched_code, immAt_fetched]

/-- The address; the ModRM byte has been fetched. -/
theorem takes_operandAddr : Takes (operandAddr (s.code 0 >>> 6) ((s.code 0).extractLsb' 0 3)) (s.fetched 1)
    (addrLength s.code) (addrAt s.regs s.code) := by
  unfold addrAt addrLength operandAddr sibAddr
  dsimp only
  split
  · refine takes_fetch8.bind (if NoBase (s.code 0 >>> 6) (s.code 1) then 4 else dispLength (s.code 0 >>> 6)) ?_
      (by split <;> rfl)
    refine .after (scaledIndex_run _) ?_
    rw [fetched_code, fetched_fetched]
    by_cases hb : NoBase (s.code 0 >>> 6) (s.code 1)
    · rw [if_pos hb, if_pos hb, if_pos (show _ ∧ _ from hb)]
      refine takes_fetch32.bind 0 ?_ rfl
      rw [immAt_fetched]
      exact takes_pure
    · rw [if_neg hb, if_neg hb, if_neg (show ¬ (_ ∧ _) from hb)]
      refine .after rfl ?_
      rw [show dispAt _ s.code 2 = dispAt _ (s.fetched 2).code 0 from (dispAt_fetched _ 2 0).symm]
      exact takes_addDisp _ _
  split
  · rw [show immAt .dword s.code 1 = immAt .dword (s.fetched 1).code 0 from (immAt_fetched _ 1 0).symm]
    exact takes_fetch32
  · refine .after rfl ?_
    rw [show dispAt _ s.code 1 = dispAt _ (s.fetched 1).code 0 from (dispAt_fetched _ 1 0).symm]
    exact takes_addDisp _ _

theorem takes_decodeModRMByte :
    Takes (decodeModRMByte (s.code 0)) (s.fetched 1) (modRMLength s.code - 1) (modRMAt s.regs s.code) := by
  unfold decodeModRMByte modRMAt modRMLength
  by_cases h3 : s.code 0 >>> 6 = 3
  · simp only [h3, decide_true, if_true]
    exact .after rfl takes_pure
  · simp only [h3, decide_false, if_false, Bool.false_eq_true, Nat.add_sub_cancel_left]
    exact takes_operandAddr.bind 0 takes_pure rfl

theorem takes_decodeModRM : Takes decodeModRM s (modRMLength s.code) (modRMAt s.regs s.code) := by
  refine takes_fetch8.bind (modRMLength s.code - 1) takes_decodeModRMByte ?_
  unfold modRMLength
  split <;> omega

theorem ensures_decodeModRM {Q : ModRM → Machine → Prop}
    (h : Q (modRMAt s.regs s.code) (s.fetched (modRMLength s.code))) : Ensures decodeModRM s Q :=
  takes_decodeModRM.ensures h

/-- **Operands.**  Both decoders fetch the bytes that the tables ask for, and give the operand that they say. -/
theorem operand_decoding (s : Machine) :
    Takes decodeModRM s (modRMLength s.code) (modRMAt s.regs s.code) ∧
      Takes (decodeModRMByte (s.code 0)) (s.fetched 1) (modRMLength s.code - 1) (modRMAt s.regs s.code) ∧
      (s.Fetches 1 → decodeModRM s = decodeModRMByte (s.code 0) (s.fetched 1)) :=
  ⟨takes_decodeModRM, takes_decodeModRMByte, fun h => bind_of_ok (takes_fetch8.ok h)⟩

end Decode

/-! ## Operands in registers and in memory -/

def Machine.stored (s : Machine) (w : Width) (v : BitVec w.bits) (o : Operand) : Machine :=
  ((s.withRegs (o.storeRegs w v s.regs)).withData (o.storeData w v s.mem.data)).logged
    (o.access .write w)

def Machine.loaded (s : Machine) (w : Width) (o : Operand) : Machine := s.logged (o.access .read w)

namespace Machine

variable (s : Machine) (w : Width) (v : BitVec w.bits) (o : Operand)


@[simp] theorem accesses_loaded : (s.loaded w o).accesses = o.access .read w ++ s.accesses := by
  cases o <;> rfl

@[simp] theorem accesses_stored : (s.stored w v o).accesses = o.access .write w ++ s.accesses := by
  cases o <;> rfl

end Machine

section ReadWrite
variable {s : Machine} {m : ModRM}

theorem operand_reg (h : m.isReg = true) (base : U32) : m.operand base = .reg m.rm := if_pos h

theorem operand_mem (h : ¬ m.isReg = true) (base : U32) : m.operand base = .mem (m.addr + base) :=
  if_neg h

theorem ensures_readRM8 {Q : U8 → Machine → Prop}
    (h : Q ((m.operand s.segmentBase).value .byte s.regs s.mem.data)
      (s.loaded .byte (m.operand s.segmentBase))) : Ensures (readRM8 m) s Q := by
  unfold readRM8
  by_cases hm : m.isReg = true
  · rw [operand_reg hm] at h
    rw [if_pos hm, ensures_byteReg]
    exact h
  · rw [operand_mem hm] at h
    rw [if_neg hm, ensures_bind, ensures_getSegmentBase]
    exact ensures_read8 h

theorem ensures_readRM16 {Q : U16 → Machine → Prop}
    (h : Q ((m.operand s.segmentBase).value .word s.regs s.mem.data)
      (s.loaded .word (m.operand s.segmentBase))) : Ensures (readRM16 m) s Q := by
  unfold readRM16
  by_cases hm : m.isReg = true
  · rw [operand_reg hm] at h
    rw [if_pos hm, ensures_bind, ensures_getReg, ensures_pure]
    exact h
  · rw [operand_mem hm] at h
    rw [if_neg hm, ensures_bind, ensures_getSegmentBase]
    exact ensures_read16 h

theorem ensures_readRM {Q : U32 → Machine → Prop} (hcur : m.Current s.regs)
    (h : Q ((m.operand s.segmentBase).value .dword s.regs s.mem.data)
      (s.loaded .dword (m.operand s.segmentBase))) : Ensures (readRM m) s Q := by
  unfold readRM
  by_cases hm : m.isReg = true
  · rw [operand_reg hm] at h
    rw [if_pos hm, ensures_pure, hcur hm]
    exact h
  · rw [operand_mem hm] at h
    rw [if_neg hm, ensures_bind, ensures_getSegmentBase]
    exact ensures_read32 h

theorem ensures_writeRM8 {v : U8}
    (h : Q () (s.stored .byte v (m.operand s.segmentBase))) : Ensures (writeRM8 m v) s Q := by
  unfold writeRM8
  by_cases hm : m.isReg = true
  · rw [operand_reg hm] at h
    rw [if_pos hm, ensures_setByteReg]
    exact h
  · rw [operand_mem hm] at h
    rw [if_neg hm, ensures_bind, ensures_getSegmentBase]
    exact ensures_write (by decide) h

theorem ensures_writeRM16 {v : U16}
    (h : Q () (s.stored .word v (m.operand s.segmentBase))) : Ensures (writeRM16 m v) s Q := by
  unfold writeRM16
  by_cases hm : m.isReg = true
  · rw [operand_reg hm] at h
    rw [if_pos hm, ensures_setReg16]
    exact h
  · rw [operand_mem hm] at h
    rw [if_neg hm, ensures_bind, ensures_getSegmentBase]
    exact ensures_write (by decide) h

theorem ensures_writeRM
    (h : Q () (s.stored .dword v (m.operand s.segmentBase))) : Ensures (writeRM m v) s Q := by
  unfold writeRM
  by_cases hm : m.isReg = true
  · rw [operand_reg hm] at h
    rw [if_pos hm, ensures_setReg]
    exact h
  · rw [operand_mem hm] at h
    rw [if_neg hm, ensures_bind, ensures_getSegmentBase]
    exact ensures_write (by decide) h

end ReadWrite

/-! ## What is stored is read back -/

theorem putReg_self (regs : Reg → U32) (r : Reg) (v : U32) : putReg regs r v r = v := if_pos rfl

theorem putReg_other {regs : Reg → U32} {i : Reg} (h : i ≠ r) (v : U32) : putReg regs r v i = regs i :=
  if_neg h

theorem low_byte_put (x : U32) (v : U8) : ((x &&& ~~~(0xff : U32)) ||| v.setWidth 32).setWidth 8 = v := by
  rw [setWidth_or, setWidth_and, show (~~~(0xff : U32)).setWidth 8 = 0#8 from rfl,
    and_zero, zero_or, setWidth_setWidth_of_le _ (by decide), setWidth_eq]

theorem high_byte_put (x : U32) (v : U8) :
    (((x &&& ~~~(0xff00 : U32)) ||| (v.setWidth 32 <<< 8)) >>> 8).setWidth 8 = v := by
  refine eq_of_getLsbD_eq fun i hi => ?_
  have hmask : (~~~(0xff00 : U32)).getLsbD (8 + i) = false := by
    revert i
    decide
  simp only [getLsbD_setWidth, getLsbD_ushiftRight, getLsbD_or, getLsbD_and, getLsbD_shiftLeft, hmask]
  simp [hi, show 8 + i < 32 by omega, show i < 32 by omega]

theorem word_put (x : U32) (v : U16) : ((x &&& 0xffff0000) ||| v.setWidth 32).setWidth 16 = v := by
  rw [setWidth_or, setWidth_and, show (0xffff0000 : U32).setWidth 16 = 0#16 from rfl,
    and_zero, zero_or, setWidth_setWidth_of_le _ (by decide), setWidth_eq]

/-! The rest of the register stays. -/

theorem low_byte_outside (x : U32) (v : U8) :
    ((x &&& ~~~(0xff : U32)) ||| v.setWidth 32) &&& ~~~(0xff : U32) = x &&& ~~~(0xff : U32) := by
  refine eq_of_getLsbD_eq fun i hi => ?_
  by_cases h8 : i < 8
  · have hmask : (~~~(0xff : U32)).getLsbD i = false := by
      revert i
      decide
    simp only [getLsbD_and, hmask, Bool.and_false]
  · simp [getLsbD_of_ge v i (by omega)]

theorem high_byte_outside (x : U32) (v : U8) :
    ((x &&& ~~~(0xff00 : U32)) ||| (v.setWidth 32 <<< 8)) &&& ~~~(0xff00 : U32) =
      x &&& ~~~(0xff00 : U32) := by
  refine eq_of_getLsbD_eq fun i hi => ?_
  by_cases hin : 8 ≤ i ∧ i < 16
  · have hmask : (~~~(0xff00 : U32)).getLsbD i = false := by
      revert i
      decide
    simp only [getLsbD_and, hmask, Bool.and_false]
  have hv : ((v.setWidth 32 <<< 8) : U32).getLsbD i = false := by
    by_cases h8 : i < 8
    · simp [h8]
    · simp [getLsbD_of_ge v (i - 8) (by omega)]
  simp only [getLsbD_and, getLsbD_or, hv, Bool.or_false, Bool.and_assoc, Bool.and_self]

theorem word_outside (x : U32) (v : U16) :
    ((x &&& 0xffff0000) ||| v.setWidth 32) &&& ~~~(0xffff : U32) = x &&& ~~~(0xffff : U32) := by
  refine eq_of_getLsbD_eq fun i hi => ?_
  have hnot : (0xffff0000 : U32) = ~~~(0xffff : U32) := rfl
  by_cases h16 : i < 16
  · have hmask : (~~~(0xffff : U32)).getLsbD i = false := by
      revert i
      decide
    simp only [getLsbD_and, hmask, Bool.and_false]
  · simp [getLsbD_of_ge v i (by omega)]

theorem byteOf_putByte (regs : Reg → U32) (r : Reg) (v : U8) : byteOf (putByte regs r v) r = v := by
  unfold byteOf putByte
  split
  · rw [putReg_self, low_byte_put]
  · rw [putReg_self, high_byte_put]

theorem regValue_putRegValue (regs : Reg → U32) (r : Reg) (w : Width) (v : BitVec w.bits) :
    regValue (putRegValue regs r w v) r w = v := by
  cases w with
  | byte => exact byteOf_putByte regs r v
  | word =>
    show (putReg regs r _ r).setWidth 16 = v
    rw [putReg_self]
    exact word_put _ v
  | dword => exact putReg_self regs r v

theorem Operand.value_store {o : Operand} (ho : ∀ v, o ≠ .imm v) (w : Width) (v : BitVec w.bits)
    (regs : Reg → U32) (data : U32 → U8) : o.value w (o.storeRegs w v regs) (o.storeData w v data) = v := by
  cases o with
  | reg r => exact regValue_putRegValue regs r w v
  | mem addr =>
    have hlen : (leBytes v w.bytes).length = w.bytes := length_leBytes _ v
    have hload := @loadBytes_storeBytes (leBytes v w.bytes) addr data
      (by rw [hlen]; cases w <;> decide)
    rw [hlen] at hload
    show leValue w.bits (loadBytes (storeBytes data addr (leBytes v w.bytes)) addr w.bytes) = v
    rw [hload]
    exact leValue_leBytes (le_of_eq w.bits_eq) v
  | imm v => exact absurd rfl (ho v)

end IshGo.I386
