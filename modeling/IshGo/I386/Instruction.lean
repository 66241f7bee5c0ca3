/-
# `IshGo.I386.Instruction` — an instruction in memory, and what a step makes of it

`InstructionAt code op ps` says which bytes stand at EIP: the prefixes `ps` and the opcode `op`.
A step fetches them (`ensures_stepFetch`) and then runs the arm of the opcode, in a state that
differs from the first one in EIP and in the base of the segment only (`Dispatched`).
-/
import IshGo.I386.Operand

namespace IshGo.I386

open Lib

variable {ps : List U8} {s t : Machine} {op : U8}
variable {Q : U8 × Prefixes → Machine → Prop} {e : Effect}

/-! ## Prefixes -/

def isPrefix (b : U8) : Bool :=
  b = 0x66 ∨ b = 0x67 ∨ b = 0x26 ∨ b = 0x2E ∨ b = 0x36 ∨ b = 0x3E ∨ b = 0xF0 ∨ b = 0xF2 ∨ b = 0xF3 ∨
    b = 0x64 ∨ b = 0x65

/-- The bytes are the prefixes `ps` and then the opcode. -/
def InstructionAt (code : Nat → U8) (op : U8) : List U8 → Prop
  | [] => code 0 = op ∧ isPrefix op = false
  | b :: ps => code 0 = b ∧ isPrefix b = true ∧ InstructionAt (fun i => code (1 + i)) op ps

instance decidableInstructionAt (op : U8) : ∀ (code : Nat → U8) (ps : List U8),
    Decidable (InstructionAt code op ps)
  | _, [] => inferInstanceAs (Decidable (_ ∧ _))
  | code, _ :: ps =>
    have := decidableInstructionAt op (fun i => code (1 + i)) ps
    inferInstanceAs (Decidable (_ ∧ _ ∧ _))

def Prefixes.with (p : Prefixes) (b : U8) : Prefixes :=
  if b = 0x66 then { p with operand16 := true }
  else if b = 0xF3 then { p with rep := true }
  else p

def prefixesOf (ps : List U8) : Prefixes := ps.foldl Prefixes.with ⟨false, false⟩

def segmentWith (fs gs base : U32) (b : U8) : U32 := if b = 0x64 then fs else if b = 0x65 then gs else base

/-- The base of the segment: that of the last prefix for one, or `0`. -/
def segmentOf (s : Machine) (ps : List U8) : U32 := ps.foldl (segmentWith s.fsBase s.gsBase) 0

theorem foldl_with_operand16 (ps : List U8) (p : Prefixes) :
    (ps.foldl Prefixes.with p).operand16 = (p.operand16 || decide (0x66 ∈ ps)) := by
  induction ps generalizing p with
  | nil => simp
  | cons b ps ih =>
    have hwith : (p.with b).operand16 = (p.operand16 || decide (0x66 = b)) := by
      unfold Prefixes.with
      by_cases h : b = 0x66
      · rw [if_pos h, decide_eq_true h.symm, Bool.or_true]
      · rw [if_neg h, decide_eq_false (Ne.symm h), Bool.or_false]
        split <;> rfl
    rw [List.foldl_cons, ih, hwith, Bool.or_assoc]
    simp

theorem prefixesOf_operand16 (ps : List U8) : (prefixesOf ps).operand16 = decide (0x66 ∈ ps) := by
  rw [prefixesOf, foldl_with_operand16]
  rfl

namespace Machine

def withSegment (s : Machine) (base : U32) : Machine := { s with segmentBase := base }

theorem fetched_withSegment (s : Machine) (base : U32) (n : Nat) :
    (s.withSegment base).fetched n = (s.fetched n).withSegment base := rfl

theorem code_fetched (s : Machine) (n : Nat) : (s.fetched n).code = fun i => s.code (n + i) :=
  funext (s.fetched_code n)

theorem code_withSegment (s : Machine) (base : U32) : (s.withSegment base).code = s.code := rfl

end Machine

theorem ensures_prefixByte {b : U8} {p : Prefixes} {Q : Option Prefixes → Machine → Prop}
    (hpre : isPrefix b = true → Q (some (p.with b)) (s.withSegment (segmentWith s.fsBase s.gsBase s.segmentBase b)))
    (hop : isPrefix b = false → Q none s) : Ensures (prefixByte b p) s Q := by
  unfold prefixByte setSegmentBase
  by_cases h66 : b = 0x66
  · subst h66
    exact ensures_pure.mpr (hpre rfl)
  rw [if_neg h66]
  split
  · rename_i h
    rcases h with rfl | rfl | rfl | rfl | rfl | rfl | rfl <;> exact ensures_pure.mpr (hpre rfl)
  rename_i hplain
  by_cases hF3 : b = 0xF3
  · subst hF3
    exact ensures_pure.mpr (hpre rfl)
  rw [if_neg hF3]
  by_cases h64 : b = 0x64
  · subst h64
    rw [if_pos rfl, ensures_bind, ensures_modify]
    exact ensures_pure.mpr (hpre rfl)
  rw [if_neg h64]
  by_cases h65 : b = 0x65
  · subst h65
    rw [if_pos rfl, ensures_bind, ensures_modify]
    exact ensures_pure.mpr (hpre rfl)
  rw [if_neg h65, ensures_pure]
  refine hop ?_
  rw [isPrefix, decide_eq_false]
  simp only [not_or] at hplain ⊢
  exact ⟨h66, hplain.1, hplain.2.1, hplain.2.2.1, hplain.2.2.2.1, hplain.2.2.2.2.1,
    hplain.2.2.2.2.2.1, hplain.2.2.2.2.2.2, hF3, h64, h65⟩

theorem ensures_prefixLoop :
    ∀ {fuel : Nat} {p : Prefixes} {s : Machine}, InstructionAt s.code op ps →
      Q (op, ps.foldl Prefixes.with p)
        ((s.fetched (ps.length + 1)).withSegment
          (ps.foldl (segmentWith s.fsBase s.gsBase) s.segmentBase)) →
      Ensures (prefixLoop fuel p) s Q := by
  induction ps with
  | nil =>
    intro fuel p s hat h
    obtain ⟨hop, hno⟩ := hat
    cases fuel with
    | zero => exact ensures_throw.mpr trivial
    | succ fuel =>
      rw [prefixLoop, ensures_bind]
      refine ensures_fetch8 ?_
      rw [hop, ensures_bind]
      refine ensures_prefixByte (fun hpre => ?_) (fun _ => ?_)
      · rw [hno] at hpre
        cases hpre
      · exact ensures_pure.mpr h
  | cons b ps ih =>
    intro fuel p s hat h
    obtain ⟨hb, hpre, hrest⟩ := hat
    cases fuel with
    | zero => exact ensures_throw.mpr trivial
    | succ fuel =>
      rw [prefixLoop, ensures_bind]
      refine ensures_fetch8 ?_
      rw [hb, ensures_bind]
      refine ensures_prefixByte (fun _ => ?_) (fun hno => ?_)
      · refine ih ?_ ?_
        · rw [Machine.code_withSegment, Machine.code_fetched]
          exact hrest
        · rw [Machine.fetched_withSegment, Machine.fetched_fetched, Nat.add_comm 1]
          exact h
      · rw [hpre] at hno
        cases hno

structure Dispatched (s : Machine) (ps : List U8) (t : Machine) : Prop where
  regs : t.regs = s.regs
  mem : t.mem = s.mem
  eflags : t.eflags = s.eflags
  eip : t.eip = s.eip + BitVec.ofNat 32 (ps.length + 1)
  segmentBase : t.segmentBase = segmentOf s ps
  accesses : t.accesses = s.accesses

theorem Dispatched.code (h : Dispatched s ps t) (i : Nat) : t.code i = s.code (ps.length + 1 + i) := by
  rw [Machine.code, Machine.code, h.mem, h.eip, BitVec.ofNat_add _ i, BitVec.add_assoc]

theorem ensures_stepFetch (hat : InstructionAt s.code op ps)
    (h : ∀ t, Dispatched s ps t → Q (op, prefixesOf ps) t) : Ensures stepFetch s Q := by
  unfold stepFetch
  simp only [ensures_bind, ensures_modify, ensures_get, ensures_pure]
  refine ensures_prefixLoop (s := s.withSegment 0) hat (h _ ?_)
  rw [Machine.fetched_withSegment]
  refine ⟨?_, ?_, ?_, ?_, ?_, ?_⟩
  · rfl
  · rfl
  · rfl
  · rfl
  · rfl
  · exact s.accesses_fetched _

/-! ## Effects -/

/-- What an instruction is computed from; `code` are the bytes after the opcode. -/
structure View where
  regs : Reg → U32
  data : U32 → U8
  eflags : U32
  base : U32
  code : Nat → U8

def Machine.view (t : Machine) : View := ⟨t.regs, t.mem.data, t.eflags, t.segmentBase, t.code⟩

/-- What the instruction after the prefixes `ps` is computed from. -/
def Machine.viewAt (s : Machine) (ps : List U8) : View :=
  ⟨s.regs, s.mem.data, s.eflags, segmentOf s ps, fun i => s.code (ps.length + 1 + i)⟩

theorem Dispatched.view (h : Dispatched s ps t) : t.view = s.viewAt ps := by
  rw [Machine.view, Machine.viewAt, h.regs, h.mem, h.eflags, h.segmentBase, funext h.code]

structure Effect where
  width : Width
  dst : Operand
  result : Option (BitVec width.bits)
  eflags : U32
  reads : List Access

namespace Effect

variable (e : Effect)

def regs (regs : Reg → U32) : Reg → U32 := e.result.elim regs (e.dst.storeRegs e.width · regs)

def data (data : U32 → U8) : U32 → U8 := e.result.elim data (e.dst.storeData e.width · data)

def writes : List Access := e.result.elim [] fun _ => e.dst.access .write e.width

end Effect

/-- Registers, memory and flags have changed by the effect alone. -/
structure Performs (e : Effect) (s t : Machine) : Prop where
  regs : t.regs = e.regs s.regs
  mem : t.mem = { s.mem with data := e.data s.mem.data }
  eflags : t.eflags = e.eflags
  accesses : t.accesses = e.writes ++ e.reads ++ s.accesses

/-! ## What an effect leaves alone -/

/-- The bits of register `r` that belong to an operand. -/
def Operand.regMask (w : Width) (r : Reg) : Operand → U32
  | reg b =>
    match w with
    | .byte => if b < 4 then if r = b then 0xff else 0 else if r = b - 4 then 0xff00 else 0
    | .word => if r = b then 0xffff else 0
    | .dword => if r = b then 0xffffffff else 0
  | mem _ | imm _ => 0

def Operand.Covers (w : Width) (x : U32) : Operand → Prop
  | mem addr => (x - addr).toNat < w.bytes
  | reg _ | imm _ => False

structure Within (w : Width) (o : Operand) (s t : Machine) : Prop where
  regs : ∀ r, t.regs r &&& ~~~o.regMask w r = s.regs r &&& ~~~o.regMask w r
  data : ∀ x, ¬ o.Covers w x → t.mem.data x = s.mem.data x
  mem : t.mem = { s.mem with data := t.mem.data }

theorem putReg_outside {regs : Reg → U32} {r b : Reg} {v mask : U32}
    (h : v &&& ~~~mask = regs b &&& ~~~mask) :
    putReg regs b v r &&& ~~~(if r = b then mask else 0) = regs r &&& ~~~(if r = b then mask else 0) := by
  by_cases hr : r = b
  · subst hr
    rw [putReg_self, if_pos rfl, h]
  · rw [putReg_other hr]

theorem putRegValue_outside (regs : Reg → U32) (b r : Reg) (w : Width) (v : BitVec w.bits) :
    putRegValue regs b w v r &&& ~~~(Operand.reg b).regMask w r =
      regs r &&& ~~~(Operand.reg b).regMask w r := by
  cases w with
  | byte =>
    unfold putRegValue putByte Operand.regMask
    by_cases h : b < 4
    · simp only [if_pos h]
      exact putReg_outside (low_byte_outside _ v)
    · simp only [if_neg h]
      exact putReg_outside (high_byte_outside _ v)
  | word => exact putReg_outside (word_outside _ v)
  | dword => exact putReg_outside (by simp)

theorem Performs.within (h : Performs e s t) : Within e.width e.dst s t := by
  have hdata : t.mem.data = e.data s.mem.data := congrArg Memory.data h.mem
  refine ⟨fun r => ?_, fun x hx => ?_, ?_⟩
  · rw [h.regs, Effect.regs]
    cases e.result with
    | none => rfl
    | some v =>
      cases hd : e.dst with
      | reg b => exact putRegValue_outside s.regs b r e.width v
      | mem addr => rfl
      | imm i => rfl
  · rw [hdata, Effect.data]
    cases e.result with
    | none => rfl
    | some v =>
      cases hd : e.dst with
      | reg b => rfl
      | mem addr =>
        rw [hd] at hx
        have hlen : (leBytes v e.width.bytes).length = e.width.bytes := length_leBytes _ v
        refine storeBytes_beyond ?_ ?_
        · rw [hlen]
          cases e.width <;> decide
        · rw [hlen]
          exact Nat.le_of_not_lt hx
      | imm i => rfl
  · rw [hdata]
    exact h.mem

/-- The effect has taken place, and `n` bytes of code have been consumed. -/
def Effect.Done (e : Effect) (n : Nat) (s t : Machine) : Prop :=
  Performs e s t ∧ t.eip = s.eip + BitVec.ofNat 32 n

def Executes (x : CpuM Unit) (s : Machine) (e : Effect) (n : Nat) : Prop :=
  Ensures x s fun _ t => e.Done n s t

/-- The state at the beginning of a step, with nothing in the log. -/
def Machine.cleared (s : Machine) : Machine := { s with log := [] }

theorem ensures_step {Q : Machine → Prop} (hrun : s.halted = false)
    (hat : InstructionAt s.code op ps) (hint : op ≠ 0xCD)
    (h : ∀ t, Dispatched s.cleared ps t → Ensures (stepOpcode op s.eip (prefixesOf ps)) t fun _ u => Q { u with steps := u.steps + 1 }) :
    Ensures step s fun _ s' => Q s' := by
  unfold step
  rw [ensures_bind, ensures_modify, ensures_bind, ensures_get]
  rw [if_neg (by rw [hrun]; exact Bool.false_ne_true)]
  unfold stepRunning stepDone
  rw [ensures_bind, ensures_getEIP, ensures_bind]
  refine ensures_stepFetch (s := s.cleared) hat fun t ht => ?_
  rw [if_neg hint]
  simp only [ensures_bind, ensures_modify, ensures_pure]
  exact h t ht

theorem step_performs {s' : Machine} {tr : Trap} {n : Nat} (hrun : s.halted = false)
    (hat : InstructionAt s.code op ps) (hint : op ≠ 0xCD)
    (harm : ∀ t, Dispatched s.cleared ps t → Executes (stepOpcode op s.eip (prefixesOf ps)) t e n)
    (hstep : step s = .ok tr s') : e.Done (ps.length + 1 + n) s.cleared s' := by
  refine ensures_step (Q := e.Done (ps.length + 1 + n) s.cleared) hrun hat hint (fun t ht => ?_) tr s'
    hstep
  refine (harm t ht).mono fun _ u ⟨hu, heip⟩ => ⟨⟨?_, ?_, ?_, ?_⟩, ?_⟩
  · rw [← ht.regs]
    exact hu.regs
  · rw [← ht.mem]
    exact hu.mem
  · exact hu.eflags
  · rw [← ht.accesses]
    exact hu.accesses
  · rw [BitVec.ofNat_add, ← BitVec.add_assoc]
    exact heip.trans (congrArg (· + _) ht.eip)

def Machine.running (code : List U8) (regs : Reg → U32) (eflags : U32) : Machine :=
  { CPU.new with
    regs := regs
    eflags := eflags
    mem := { Memory.new 64 with data := fun a => code.getD a.toNat 0 }
    log := [] }

end IshGo.I386
