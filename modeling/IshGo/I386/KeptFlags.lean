/-
# `IshGo.I386.KeptFlags` — flags that an instruction leaves

`keptFlags` says, by the manual, which flags the instruction has to leave: the carry for INC and
DEC, ZF, SF and PF for ROL and ROR, all but the carry for BT and its relatives, all of them for a
shift by `0` and for the instructions that only move.  A step that fails leaves them, and one that
is carried out leaves them exactly if `FlagsExact` holds of the operand, the count and the flags
before (`flag_preservation`).  There are two exceptions in the source:

    40 – 4F                    the carry is cleared
    ROL and ROR by a count     ZF, SF and PF are those of the rotated operand
-/
import IshGo.I386.ByteWidth
import IshGo.I386.Walk

namespace IshGo.I386

open Lib BitVec Shape Status

variable {op : U8} {operand16 : Bool} {p : Prefixes} {s t : Machine} {start : U32}
variable {M : U32}
variable {f : U32} {count : U8} {m : ModRM} {ps : List U8} {res : Option (U32 × Bool × Bool)} {w : Width}

/-! ## The relation -/

/-- The flags in `M` are the same. -/
def KeepsFlags (M : U32) (s t : Machine) : Prop := t.eflags &&& M = s.eflags &&& M

instance (M : U32) (s t : Machine) : Decidable (KeepsFlags M s t) := inferInstanceAs (Decidable (_ = _))

instance : IsPreorder Machine (KeepsFlags M) where
  refl _ := rfl
  trans _ _ _ h₁ h₂ := h₂.trans h₁

theorem keeps_of_eq (h : t.eflags = s.eflags) : KeepsFlags M s t := congrArg (· &&& M) h

theorem keeps_modify {f : Machine → Machine} (h : ∀ s, (f s).eflags = s.eflags) :
    Stays (KeepsFlags M) (modify f : CpuM Unit) := .modify fun s => keeps_of_eq (h s)

instance : OperandRel (KeepsFlags M) where
  setReg _ _ := keeps_modify fun _ => rfl
  setEIP _ := keeps_modify fun _ => rfl
  setSegmentBase _ := keeps_modify fun _ => rfl
  fetch8 _ := stays_memRead fun _ _ _ => rfl
  read8 _ := stays_memRead fun _ _ _ => rfl
  read16 _ := stays_memRead fun _ _ _ => rfl
  read32 _ := stays_memRead fun _ _ _ => rfl
  write8 _ _ := stays_memWrite fun _ _ _ => rfl
  write16 _ _ := stays_memWrite fun _ _ _ => rfl
  write32 _ _ := stays_memWrite fun _ _ _ => rfl

theorem keeps_updateFlags {g : U32 → U32} (h : ∀ f, g f &&& M = f &&& M) :
    Stays (KeepsFlags M) (updateFlags g) := .modify fun s => h s.eflags

/-! ## The instructions that only move -/

instance (start : U32) : Stays (KeepsFlags M) (movSreg start) := by
  have hfs (value : U16) : Stays (KeepsFlags M)
      (modify fun s : Machine => { s with fsSelector := value } : CpuM Unit) := keeps_modify fun _ => rfl
  have hgs (value : U16) : Stays (KeepsFlags M)
      (modify fun s : Machine => { s with gsSelector := value } : CpuM Unit) := keeps_modify fun _ => rfl
  unfold movSreg
  infer_instance

/-! ## By the manual -/

/-- The opcodes of MOV, LEA, XCHG, PUSH, POP, CALL, RET, LEAVE, CDQ, Jcc, JMP and MOVS. -/
def quiet (op : U8) : Bool :=
  (0xB0 ≤ op ∧ op ≤ 0xB7) ∨ (0xB8 ≤ op ∧ op ≤ 0xBF) ∨ (0x50 ≤ op ∧ op ≤ 0x57) ∨
    (0x58 ≤ op ∧ op ≤ 0x5F) ∨ (0x91 ≤ op ∧ op ≤ 0x97) ∨ (0x70 ≤ op ∧ op ≤ 0x7F) ∨
    op ∈ [0x68, 0x6A, 0x90, 0x99, 0xC3, 0xC2, 0xC9, 0xE8, 0xE9, 0xEB, 0xC6, 0x87, 0xA0, 0xA1, 0xA2, 0xA3,
      0xA4, 0xA5, 0x8E, 0x88, 0x8A, 0x89, 0x8B, 0x8D, 0xC7]

def quietExt (ext : U8) : Bool :=
  (0x80 ≤ ext ∧ ext ≤ 0x8F) ∨ (0xC8 ≤ ext ∧ ext ≤ 0xCF) ∨ (0x90 ≤ ext ∧ ext ≤ 0x9F) ∨
    ext ∈ [0xB6, 0xB7, 0xBE, 0xBF]

theorem stays_arm {x : CpuM Unit} (arm : CpuM Unit) (h : x = arm) [Stays (KeepsFlags M) arm] :
    Stays (KeepsFlags M) x := h ▸ inferInstance

theorem stays_quiet (h : quiet op = true) : Stays (KeepsFlags M) (stepOpcode op start p) := by
  rcases of_decide_eq_true h with hop | hop | hop | hop | hop | hop | hop
  · rw [stepOpcode, if_pos hop]
    infer_instance
  · rw [stepOpcode, if_neg (by bv_omega), if_pos hop]
    infer_instance
  · unfold stepOpcode
    iterate 2 rw [if_neg (by bv_omega)]
    rw [if_pos hop]
    infer_instance
  · unfold stepOpcode
    iterate 3 rw [if_neg (by bv_omega)]
    rw [if_pos hop]
    infer_instance
  · unfold stepOpcode
    iterate 10 rw [if_neg (by bv_omega)]
    rw [if_pos hop]
    infer_instance
  · have harm : stepOpcode op start p = jccRel8 op := by
      unfold stepOpcode stepControl
      iterate 26 rw [if_neg (by bv_omega)]
      rw [if_pos hop]
    rw [harm]
    infer_instance
  simp only [List.mem_cons, List.not_mem_nil, or_false] at hop
  rcases hop with rfl | rfl | rfl | rfl | rfl | rfl | rfl | rfl | rfl | rfl | rfl | rfl | rfl | rfl |
    rfl | rfl | rfl | rfl | rfl | rfl | rfl | rfl | rfl | rfl | rfl
  · exact stays_arm pushImm32 rfl
  · exact stays_arm pushImm8 rfl
  · exact stays_arm (pure ()) rfl
  · exact stays_arm cdq rfl
  · exact stays_arm ret rfl
  · exact stays_arm retImm16 rfl
  · exact stays_arm leave rfl
  · exact stays_arm callRel rfl
  · exact stays_arm jmpRel32 rfl
  · exact stays_arm jmpRel8 rfl
  · exact stays_arm (movRM8Imm8 start) rfl
  · exact stays_arm xchgRM rfl
  · exact stays_arm (movMoffs 0xA0) rfl
  · exact stays_arm (movMoffs 0xA1) rfl
  · exact stays_arm (movMoffs 0xA2) rfl
  · exact stays_arm (movMoffs 0xA3) rfl
  · exact stays_arm (movs 0xA4 p.rep) rfl
  · exact stays_arm (movs 0xA5 p.rep) rfl
  · exact stays_arm (movSreg start) rfl
  · exact stays_arm (movByte 0x88) rfl
  · exact stays_arm (movByte 0x8A) rfl
  · exact stays_arm (decodeModRM >>= movRM 0x89 p.operand16) rfl
  · exact stays_arm (decodeModRM >>= movRM 0x8B p.operand16) rfl
  · exact stays_arm (decodeModRM >>= lea) rfl
  · exact stays_arm (decodeModRM >>= movRMImm start p.operand16) rfl

def allFlags : U32 := allOnes 32

/-- The flags that a shift has to leave: all of them with the count `0`, and ZF, SF and PF if it
is a rotation. -/
def keptByShift (digit : Reg) (zero : Bool) : U32 :=
  if zero then allFlags else if digit = 0 ∨ digit = 1 then flagZF ||| flagSF ||| flagPF else 0

def keptExt (v : View) : U32 :=
  let ext := v.code 0
  if quietExt ext then allFlags
  else if ext = 0xA4 ∨ ext = 0xAC then
    if v.next.code (modRMLength v.next.code) &&& 31 = 0 then allFlags else 0
  else if ext = 0xBA ∨ ext = 0xA3 ∨ ext = 0xAB ∨ ext = 0xB3 ∨ ext = 0xBB then ~~~flagCF
  else 0

def keptFlags (op : U8) (v : View) : U32 :=
  let digit := digitAt v.code
  if quiet op then allFlags
  else if 0x40 ≤ op ∧ op ≤ 0x4F then flagCF
  else if op = 0xFE then flagCF
  else if op = 0xFF then if digit = 0 ∨ digit = 1 then flagCF else allFlags
  else if op = 0xF6 ∨ op = 0xF7 then if digit = 2 then allFlags else 0
  else if op = 0xC0 ∨ op = 0xD0 then keptByShift digit (countByte op v &&& 31 = 0)
  else if op = 0xC1 ∨ op = 0xD1 ∨ op = 0xD3 then keptByShift digit (countWord op v = 0)
  else if op = 0x0F then keptExt v
  else 0

/-! ## The arms -/

instance (g : U32 → U32) : Stays (KeepsFlags flagCF) (keepCarry (updateFlags g)) where
  stays s := by
    show ((g s.eflags &&& ~~~flagCF) ||| (s.eflags &&& flagCF)) &&& flagCF = s.eflags &&& flagCF
    ext i hi
    simp only [getElem_and, getElem_or, getElem_not]
    cases (g s.eflags)[i] <;> cases s.eflags[i] <;> cases flagCF[i] <;> rfl

instance (on : Bool) : Stays (KeepsFlags (~~~flagCF)) (putFlag flagCF on) := by
  refine keeps_updateFlags fun f => ?_
  cases on with
  | false => exact (BitVec.and_assoc ..).trans (congrArg (f &&& ·) BitVec.and_self)
  | true =>
    show (f ||| flagCF) &&& ~~~flagCF = f &&& ~~~flagCF
    ext i hi
    simp only [getElem_and, getElem_or, getElem_not]
    cases f[i] <;> cases flagCF[i] <;> rfl

instance (start : U32) : Stays (KeepsFlags flagCF) (groupFE start) := by
  dsimp only [groupFE, setAddFlagsN, setSubFlagsN]
  infer_instance

instance (start : U32) : Stays (KeepsFlags flagCF) (groupFF start) := by
  dsimp only [groupFF, setAddFlags, setSubFlags]
  infer_instance

instance (start : U32) : Stays (KeepsFlags (~~~flagCF)) (groupBA start) := by
  unfold groupBA
  infer_instance

instance (ext : U8) : Stays (KeepsFlags (~~~flagCF)) (bitString ext) := by
  unfold bitString
  infer_instance

theorem keeps_groupFF (hdigit : ¬ (digitAt t.code = 0 ∨ digitAt t.code = 1)) :
    KeepsFlags M t (after (groupFF start) t) := by
  have h0 : ¬ (modRMAt t.regs t.code).reg = 0 := fun h => hdigit (.inl h)
  have h1 : ¬ (modRMAt t.regs t.code).reg = 1 := fun h => hdigit (.inr h)
  refine after_bind_of_ensures (ensures_decodeModRM ?_)
  simp only [if_neg h0, if_neg h1]
  exact Stays.stays (R := KeepsFlags M) (t.fetched _)

theorem keeps_groupF6F7 (hdigit : digitAt t.code = 2) :
    KeepsFlags M t (after (groupF6F7 op start operand16) t) := by
  have hreg : (modRMAt t.regs t.code).reg = 2 := hdigit
  have h0 : ¬ (modRMAt t.regs t.code).reg = 0 := by
    rw [hreg]
    decide
  refine after_bind_of_ensures (ensures_decodeModRM ?_)
  by_cases hword : operand16 = true ∧ op = 0xF7
  · rw [if_pos hword]
    exact after_bind_of_ensures (ensures_require.mpr fun h => absurd (of_decide_eq_true h) h0)
  · simp only [if_neg hword, unaryGroup, notRM, if_neg h0, if_pos hreg]
    exact Stays.stays (R := KeepsFlags M) (t.fetched _)

theorem keeps_shiftDouble {left : Bool} (hcount : t.code (modRMLength t.code) &&& 31 = 0) :
    KeepsFlags M t (after (shiftDouble left) t) := by
  refine after_bind_of_ensures (ensures_decodeModRM (after_bind_of_ensures (ensures_fetch8 ?_)))
  rw [Machine.fetched_code, Nat.add_zero, hcount]
  rfl

/-! Shifts: the flags are written last, once the result is stored. -/

theorem aborts_storeShift8 {res : Option (U8 × Bool × Bool)} :
    Aborts (KeepsFlags M) (storeShift8 m start res) t := by
  match res with
  | none =>
    intro e u h
    cases h
    rfl
  | some (r, cf, of) => exact aborts_bind fun _ _ _ => aborts_modify

theorem aborts_storeShiftN : Aborts (KeepsFlags M) (storeShiftN operand16 m start res) t := by
  match res with
  | none =>
    intro e u h
    cases h
    rfl
  | some (r, cf, of) =>
    refine aborts_bind fun _ u _ => ?_
    cases operand16 <;> exact aborts_modify

theorem aborts_groupC0 : Aborts (KeepsFlags M) (groupC0 op start) t := by
  have hrest (m : ModRM) (count : U8) (u : Machine) : Aborts (KeepsFlags M) (do
      let value ← readRM8 m
      if count &&& 7 = 0 then return ()
      else storeShift8 m start (shift8 m.reg value (count &&& 7).toNat)) u := by
    refine aborts_bind fun value u _ => ?_
    split
    · exact .of_stays
    · exact aborts_storeShift8
  refine aborts_bind fun m u _ => ?_
  dsimp only
  split
  · exact aborts_bind fun count u _ => hrest m count u
  · exact aborts_bind fun count u _ => hrest m count u

instance (op : U8) : Stays (KeepsFlags M) (shiftCount op) := by unfold shiftCount; infer_instance

theorem aborts_groupC1 : Aborts (KeepsFlags M) (groupC1 op start operand16) t := by
  refine aborts_bind fun m u _ => aborts_bind fun count u _ => aborts_bind fun value u _ => ?_
  dsimp only
  by_cases h0 : count = 0
  · rw [if_pos h0]
    exact .of_stays
  · rw [if_neg h0]
    exact aborts_storeShiftN

theorem keeps_shift {x : CpuM Unit} {a : Width} {n : Nat} (hfail : Aborts (KeepsFlags M) x t)
    (hdone : Executes x t (shiftEffect w a t.view res) n)
    (h : ∀ r cf of, res = some (r, cf, of) →
      (resultStatus (r.setWidth w.bits) cf of).into t.eflags &&& M = t.eflags &&& M) :
    KeepsFlags M t (after x t) := by
  cases hx : x t with
  | error e u =>
    rw [after_error hx]
    exact hfail e u hx
  | ok y u =>
    obtain ⟨hperformed, -⟩ := hdone y u hx
    rw [after_ok hx, KeepsFlags, hperformed.eflags]
    match res, h with
    | none, _ => rfl
    | some (r, cf, of), h => exact h r cf of rfl

/-! ## Where the source leaves them -/

/-- INC and DEC of the register in the opcode find no carry, and a rotation finds ZF, SF and PF as
the rotated operand has them. -/
structure FlagsExact (op : U8) (operand16 : Bool) (v : View) : Prop where
  short : 0x40 ≤ op ∧ op ≤ 0x4F → carryFlag v.eflags = false
  byte : op = 0xC0 ∨ op = 0xD0 → digitAt v.code = 0 ∨ digitAt v.code = 1 → countByte op v &&& 7 ≠ 0 →
    Shows (ofFlags v.eflags) (shifted (digitAt v.code) ((rm v).value .byte v.regs v.data)
      (countByte op v &&& 7).toNat)
  word : op = 0xC1 ∨ op = 0xD1 ∨ op = 0xD3 → digitAt v.code = 0 ∨ digitAt v.code = 1 →
    countWord op v ≠ 0 → Shows (ofFlags v.eflags) (shifted (digitAt v.code)
      (((rm v).value .dword v.regs v.data).setWidth (Width.ofPrefix operand16).bits) (countWord op v))

/-- Setting the flags of a value leaves ZF, SF and PF exactly if they were those of the value. -/
theorem kept_iff {n : Nat} {r : BitVec n} {cf of : Bool} :
    (resultStatus r cf of).into f &&& (flagZF ||| flagSF ||| flagPF) =
      f &&& (flagZF ||| flagSF ||| flagPF) ↔ Shows (ofFlags f) r := by
  constructor
  · intro h
    have hmask : ∀ m, (flagZF ||| flagSF ||| flagPF) &&& m = m →
        decide (f &&& m ≠ 0) = decide ((resultStatus r cf of).into f &&& m ≠ 0) := by
      intro m hm
      rw [← hm, ← BitVec.and_assoc, ← h, BitVec.and_assoc]
    have hinto := ofFlags_into (resultStatus r cf of) f
    exact ⟨(hmask flagZF rfl).trans (congrArg Status.zf hinto),
      (hmask flagSF rfl).trans (congrArg Status.sf hinto),
      (hmask flagPF rfl).trans (congrArg Status.pf hinto)⟩
  rintro ⟨hzf, hsf, hpf⟩
  have hz : f.getLsbD 6 = decide (r = 0) := (and_bit_ne f (by decide)).symm.trans hzf
  have hs : f.getLsbD 7 = r.msb := (and_bit_ne f (by decide)).symm.trans hsf
  have hp : f.getLsbD 2 = parity r := (and_bit_ne f (by decide)).symm.trans hpf
  have hzm := getLsbD_flag (show flagZF = twoPow 32 6 from rfl) (by decide)
  have hsm := getLsbD_flag (show flagSF = twoPow 32 7 from rfl) (by decide)
  have hpm := getLsbD_flag (show flagPF = twoPow 32 2 from rfl) (by decide)
  refine eq_of_getLsbD_eq fun i hi => ?_
  simp only [getLsbD_and, getLsbD_or, hzm, hsm, hpm, getLsbD_into]
  by_cases h6 : i = 6
  · subst h6
    rw [hz]
    simp [resultStatus]
  by_cases h7 : i = 7
  · subst h7
    rw [hs]
    simp [resultStatus]
  by_cases h2 : i = 2
  · subst h2
    rw [hp]
    simp [resultStatus]
  · simp [h6, h7, h2]

/-! Rotations of the source, and of the manual. -/

section Rotation
variable {digit : Reg} (hd : digit = 0 ∨ digit = 1) {c : Status}
include hd

theorem rotateByte_shows_iff (value count : U8) :
    (∀ r cf of, shiftByte digit value count = some (r, cf, of) → Shows c (r.setWidth 8)) ↔
      (count &&& 7 ≠ 0 → Shows c (shifted digit value (count &&& 7).toNat)) := by
  obtain ⟨cf, of, hres, -⟩ := shift8_rotate value hd (count &&& 7).toNat
  have hlow : (count &&& 7).toNat % 8 = (count &&& 7).toNat := Nat.mod_eq_of_lt (by
    rw [low_count]
    exact Nat.mod_lt _ (by decide))
  rw [hlow] at hres
  unfold shiftByte
  by_cases h0 : count &&& 7 = 0
  · rw [if_pos h0]
    exact ⟨fun _ h => absurd h0 h, fun _ => nofun⟩
  rw [if_neg h0, hres]
  constructor
  · intro h _
    have hshows := h _ _ _ rfl
    rwa [byte_back] at hshows
  · intro h r cf of heq
    cases heq
    rw [byte_back]
    exact h h0

omit hd in
theorem low_and (x : U32) : (x &&& 0xffff).setWidth 16 = x.setWidth 16 := by
  rw [setWidth_and]
  exact and_allOnes

omit hd in
theorem low_ushiftRight (x : U32) (k : Nat) :
    ((x &&& 0xffff) >>> k).setWidth 16 = (x.setWidth 16) >>> k := by
  have hmask : (x &&& 0xffff).toNat = x.toNat % 2 ^ 16 := by
    rw [toNat_and]
    exact Nat.and_two_pow_sub_one_eq_mod _ 16
  refine BitVec.eq_of_toNat_eq ?_
  rw [toNat_setWidth, toNat_ushiftRight, toNat_ushiftRight, toNat_setWidth, hmask]
  refine Nat.mod_eq_of_lt (lt_of_le_of_lt ?_ (Nat.mod_lt x.toNat (by decide)))
  rw [Nat.shiftRight_eq_div_pow]
  exact Nat.div_le_self _ _

omit hd in
theorem low_shiftLeft (x : U32) (k : Nat) :
    ((x &&& 0xffff) <<< k).setWidth 16 = (x.setWidth 16) <<< k := by
  rw [setWidth_shiftLeft_of_le (by decide), low_and]

omit hd in
theorem rotateLeft_aux {w : Nat} (x : BitVec w) (c : Nat) :
    x.rotateLeft c = if c % w ≠ 0 then x <<< (c % w) ||| x >>> (w - c % w) else x := by
  show x <<< (c % w) ||| x >>> (w - c % w) = _
  split
  · rfl
  · rename_i h
    rw [not_not.mp h, Nat.sub_zero, BitVec.shiftLeft_zero, BitVec.ushiftRight_eq_zero (Nat.le_refl w)]
    exact or_zero

omit hd in
theorem rotateRight_aux {w : Nat} (x : BitVec w) (c : Nat) :
    x.rotateRight c = if c % w ≠ 0 then x >>> (c % w) ||| x <<< (w - c % w) else x := by
  show x >>> (c % w) ||| x <<< (w - c % w) = _
  split
  · rfl
  · rename_i h
    rw [not_not.mp h, Nat.sub_zero, BitVec.shiftLeft_eq_zero (Nat.le_refl w)]
    exact or_zero

theorem shiftWord_rotate (operand16 : Bool) (x : U32) {c : Nat} (hc : c ≠ 0) :
    ∃ r cf of, shiftWord operand16 digit x c = some (r, cf, of) ∧
      r.setWidth (Width.ofPrefix operand16).bits =
        shifted digit (x.setWidth (Width.ofPrefix operand16).bits) c := by
  rw [shiftWord, if_neg hc]
  rcases hd with rfl | rfl
  · refine ⟨_, _, _, rfl, ?_⟩
    show _ = (x.setWidth (Width.ofPrefix operand16).bits).rotateLeft c
    rw [rotateLeft_aux]
    cases operand16 with
    | false =>
      show setWidth 32 (if c % 32 ≠ 0 then _ &&& allOnes 32 else x) = _
      rw [setWidth_eq, and_allOnes, setWidth_eq]
      rfl
    | true =>
      show setWidth 16 (if c % 16 ≠ 0 then
        ((x &&& 0xffff) <<< (c % 16) ||| (x &&& 0xffff) >>> (16 - c % 16)) &&& 0xffff
        else x &&& 0xffff) = _
      rw [apply_ite (setWidth 16), low_and, low_and, setWidth_or, low_ushiftRight, low_shiftLeft]
  · refine ⟨_, _, _, rfl, ?_⟩
    show _ = (x.setWidth (Width.ofPrefix operand16).bits).rotateRight c
    rw [rotateRight_aux]
    cases operand16 with
    | false =>
      show setWidth 32 (if c % 32 ≠ 0 then _ &&& allOnes 32 else x) = _
      rw [setWidth_eq, and_allOnes, setWidth_eq]
      rfl
    | true =>
      show setWidth 16 (if c % 16 ≠ 0 then
        ((x &&& 0xffff) >>> (c % 16) ||| (x &&& 0xffff) <<< (16 - c % 16)) &&& 0xffff
        else x &&& 0xffff) = _
      rw [apply_ite (setWidth 16), low_and, low_and, setWidth_or, low_ushiftRight, low_shiftLeft]

theorem rotateWord_shows_iff (operand16 : Bool) (x : U32) (n : Nat) :
    (∀ r cf of, shiftWord operand16 digit x n = some (r, cf, of) →
      Shows c (r.setWidth (Width.ofPrefix operand16).bits)) ↔
      (n ≠ 0 → Shows c (shifted digit (x.setWidth (Width.ofPrefix operand16).bits) n)) := by
  by_cases h0 : n = 0
  · rw [shiftWord, if_pos h0]
    exact ⟨fun _ h => absurd h0 h, fun _ => nofun⟩
  obtain ⟨r, cf, of, hres, hr⟩ := shiftWord_rotate hd operand16 x h0
  rw [hres]
  constructor
  · intro h _
    exact hr ▸ h r cf of rfl
  · intro h r' cf' of' heq
    cases heq
    exact hr.symm ▸ h h0

end Rotation

theorem stepOpcode_byteShift (hop : op = 0xC0 ∨ op = 0xD0) :
    stepOpcode op start p = groupC0 op start := by
  rcases hop with rfl | rfl <;> rfl

theorem stepOpcode_wordShift (hop : op = 0xC1 ∨ op = 0xD1 ∨ op = 0xD3) :
    stepOpcode op start p = groupC1 op start p.operand16 := by
  rcases hop with rfl | rfl | rfl <;> rfl

theorem stepOpcode_short (hop : 0x40 ≤ op ∧ op ≤ 0x4F) :
    stepOpcode op start p = if op ≤ 0x47 then incReg op else decReg op := by
  unfold stepOpcode
  iterate 4 rw [if_neg (by bv_omega)]
  by_cases hinc : op ≤ 0x47
  · rw [if_pos hinc, if_pos ⟨hop.1, hinc⟩]
  · rw [if_neg hinc, if_neg fun h => hinc h.2, if_pos (by bv_omega)]

theorem keeps_short (hop : 0x40 ≤ op ∧ op ≤ 0x4F) (hcarry : carryFlag t.eflags = false) :
    KeepsFlags flagCF t (after (stepOpcode op start p) t) := by
  have hclear : ∀ f : U32, f &&& ~~~flagCF &&& flagCF = t.eflags &&& flagCF := by
    intro f
    rw [not_not.mp (of_decide_eq_false hcarry), BitVec.and_assoc]
    exact and_zero
  rw [stepOpcode_short hop]
  split
  · exact hclear _
  · exact hclear _

theorem keeps_nothing (f g : U32) : f &&& 0 = g &&& 0 := and_zero.trans and_zero.symm

theorem shiftByte_zero {digit : Reg} {value : U8} (h : decide (count &&& 31 = 0) = true) :
    shiftByte digit value count = none := by
  refine shiftByte_none (.inl (BitVec.eq_of_toNat_eq ?_))
  rw [low_count, of_decide_eq_true h]
  rfl

theorem shiftWord_zero {digit : Reg} {x : U32} {n : Nat} (h : decide (n = 0) = true) :
    shiftWord operand16 digit x n = none := if_pos (of_decide_eq_true h)

theorem keeps_extended : KeepsFlags (keptExt t.view) t (after (stepExtended start) t) := by
  refine after_bind_of_ensures (ensures_fetch8 ?_)
  show KeepsFlags (keptExt t.view) (t.fetched 1) _
  unfold keptExt
  have hnext : t.view.next.code = (t.fetched 1).code := (t.code_fetched 1).symm
  rw [hnext]
  rw [show t.view.code 0 = t.code 0 from rfl]
  generalize t.code 0 = ext
  by_cases hquiet : quietExt ext = true
  · rw [if_pos hquiet]
    rcases of_decide_eq_true hquiet with hext | hext | hext | hext
    · rw [if_pos hext]
      exact Stays.stays (t.fetched 1)
    · rw [if_neg (by bv_omega), if_pos hext]
      exact Stays.stays (t.fetched 1)
    · rw [if_neg (by bv_omega), if_neg (by bv_omega), if_pos hext]
      exact Stays.stays (t.fetched 1)
    · have harm : Stays (KeepsFlags allFlags) (movExtend ext) := inferInstance
      simp only [List.mem_cons, List.not_mem_nil, or_false] at hext
      rcases hext with rfl | rfl | rfl | rfl <;> exact harm.stays (t.fetched 1)
  rw [if_neg hquiet]
  by_cases hdouble : ext = 0xA4 ∨ ext = 0xAC
  · rw [if_pos hdouble]
    by_cases hcount : (t.fetched 1).code (modRMLength (t.fetched 1).code) &&& 31 = 0
    · rcases hdouble with rfl | rfl <;> exact keeps_shiftDouble hcount
    · rw [if_neg hcount]
      exact keeps_nothing _ _
  rw [if_neg hdouble]
  by_cases hbit : ext = 0xBA ∨ ext = 0xA3 ∨ ext = 0xAB ∨ ext = 0xB3 ∨ ext = 0xBB
  · have hBA : Stays (KeepsFlags (~~~flagCF)) (groupBA start) := inferInstance
    have hstring : Stays (KeepsFlags (~~~flagCF)) (bitString ext) := inferInstance
    rcases hbit with rfl | rfl | rfl | rfl | rfl
    · exact hBA.stays (t.fetched 1)
    all_goals exact hstring.stays (t.fetched 1)
  · rw [if_neg hbit]
    exact keeps_nothing _ _

theorem keptByShift_kept {digit : Reg} {zero : Bool} (hzero : zero = true → res = none)
    (hshows : digit = 0 ∨ digit = 1 → ∀ r cf of, res = some (r, cf, of) →
      Shows (ofFlags f) (r.setWidth w.bits)) :
    ∀ r cf of, res = some (r, cf, of) →
      (resultStatus (r.setWidth w.bits) cf of).into f &&& keptByShift digit zero =
        f &&& keptByShift digit zero := by
  intro r cf of hres
  unfold keptByShift
  subst hres
  rw [if_neg fun h => Option.some_ne_none _ (hzero h)]
  by_cases hdigit : digit = 0 ∨ digit = 1
  · rw [if_pos hdigit]
    exact kept_iff.mpr (hshows hdigit r cf of rfl)
  · rw [if_neg hdigit]
    exact keeps_nothing _ _

theorem keeps_opcode (h : FlagsExact op p.operand16 t.view) :
    KeepsFlags (keptFlags op t.view) t (after (stepOpcode op start p) t) := by
  unfold keptFlags
  by_cases hquiet : quiet op = true
  · exact (stays_quiet hquiet).stays t
  rw [if_neg hquiet]
  by_cases hshort : 0x40 ≤ op ∧ op ≤ 0x4F
  · rw [if_pos hshort]
    exact keeps_short hshort (h.short hshort)
  rw [if_neg hshort]
  by_cases hFE : op = 0xFE
  · subst hFE
    exact Stays.stays (R := KeepsFlags flagCF) (x := groupFE start) t
  rw [if_neg hFE]
  by_cases hFF : op = 0xFF
  · subst hFF
    by_cases hdigit : digitAt t.view.code = 0 ∨ digitAt t.view.code = 1
    · rw [if_pos hdigit]
      exact Stays.stays (R := KeepsFlags flagCF) (x := groupFF start) t
    · exact keeps_groupFF hdigit
  rw [if_neg hFF]
  by_cases hF6 : op = 0xF6 ∨ op = 0xF7
  · rw [if_pos hF6]
    by_cases hdigit : digitAt t.view.code = 2
    · rcases hF6 with rfl | rfl <;> exact keeps_groupF6F7 hdigit
    · rw [if_neg hdigit]
      exact keeps_nothing _ _
  rw [if_neg hF6]
  by_cases hC0 : op = 0xC0 ∨ op = 0xD0
  · rw [if_pos hC0]
    rw [stepOpcode_byteShift hC0]
    exact keeps_shift aborts_groupC0 (executes_groupC0 op start) (keptByShift_kept shiftByte_zero
      fun hd => (rotateByte_shows_iff hd _ _).mpr (h.byte hC0 hd))
  rw [if_neg hC0]
  by_cases hC1 : op = 0xC1 ∨ op = 0xD1 ∨ op = 0xD3
  · rw [if_pos hC1]
    rw [stepOpcode_wordShift hC1]
    exact keeps_shift aborts_groupC1 (executes_groupC1 op start _) (keptByShift_kept shiftWord_zero
      fun hd => (rotateWord_shows_iff hd _ _ _).mpr (h.word hC1 hd))
  rw [if_neg hC1]
  by_cases h0F : op = 0x0F
  · subst h0F
    exact keeps_extended
  · rw [if_neg h0F]
    exact keeps_nothing _ _

/-! ## The step -/

instance {M : U32} : Stays (KeepsFlags M) stepFetch := by
  have hbase : Stays (KeepsFlags M) (modify fun s : Machine => { s with segmentBase := 0 } : CpuM Unit) :=
    keeps_modify fun _ => rfl
  have hlast (eip : U32) (op : U8) : Stays (KeepsFlags M)
      (modify fun m : Machine => { m with lastEIP := eip, lastOpcode := op } : CpuM Unit) :=
    keeps_modify fun _ => rfl
  unfold stepFetch
  infer_instance

theorem step_keeps (hrun : s.halted = false)
    (hat : InstructionAt s.code op ps) (h : FlagsExact op (decide (0x66 ∈ ps)) (s.viewAt ps)) :
    Ensures step s fun _ s' => KeepsFlags (keptFlags op (s.viewAt ps)) s s' := by
  by_cases hCD : op = 0xCD
  · subst hCD
    exact fun _ _ _ => keeps_nothing _ _
  refine ensures_step hrun hat hCD fun t ht _ u hu => ?_
  have hview : t.view = s.viewAt ps := ht.view
  rw [← prefixesOf_operand16, ← hview] at h
  have hkeeps : KeepsFlags _ t (after (stepOpcode op s.eip (prefixesOf ps)) t) := keeps_opcode h
  rw [after_ok hu, hview, KeepsFlags, ht.eflags] at hkeeps
  exact hkeeps

/-! ## The step that fails -/

theorem aborts_opcode : Aborts (KeepsFlags (keptFlags op t.view)) (stepOpcode op start p) t := by
  by_cases hC0 : op = 0xC0 ∨ op = 0xD0
  · rw [stepOpcode_byteShift hC0]
    exact aborts_groupC0
  by_cases hC1 : op = 0xC1 ∨ op = 0xD1 ∨ op = 0xD3
  · rw [stepOpcode_wordShift hC1]
    exact aborts_groupC1
  by_cases hshort : 0x40 ≤ op ∧ op ≤ 0x4F
  · rw [stepOpcode_short hshort]
    split
    all_goals
      refine aborts_bind fun _ _ _ => aborts_bind fun _ _ _ => Aborts.bind aborts_modify ?_
      exact fun _ _ => aborts_modify (R := fun _ _ => False)
  intro e u herr
  have hkeeps : KeepsFlags (keptFlags op t.view) t (after (stepOpcode op start p) t) :=
    keeps_opcode ⟨(absurd · hshort), (absurd · hC0), (absurd · hC1)⟩
  rwa [after_error herr] at hkeeps

theorem step_aborts (hrun : s.halted = false) (hat : InstructionAt s.code op ps) :
    Aborts (KeepsFlags (keptFlags op (s.viewAt ps))) step s := by
  have hbegin : step s = stepRunning s.cleared := by
    show (if s.halted then _ else _ : CpuM Trap) s.cleared = _
    rw [if_neg (by rw [hrun]; exact Bool.false_ne_true)]
  intro e u herr
  rw [hbegin] at herr
  change KeepsFlags _ s.cleared u
  revert e u
  show Aborts _ stepRunning s.cleared
  refine aborts_bind (ensures_getEIP.mpr ?_)
  refine aborts_bind (ensures_stepFetch hat fun t ht => ?_)
  by_cases hCD : op = 0xCD
  · subst hCD
    intro e u _
    exact keeps_nothing _ _
  rw [if_neg hCD]
  refine Aborts.bind ?_ fun _ _ _ _ => nofun
  rw [show s.viewAt ps = t.view from ht.view.symm]
  exact aborts_opcode

/-! ## INC and DEC, short and long -/

/-- The ModRM byte of the long encoding: the register, and the digit of the operation. -/
theorem short_modRM (hop : 0x40 ≤ op ∧ op ≤ 0x4F) :
    (op + 0x80) >>> 6 = 3 ∧ (op + 0x80).extractLsb' 0 3 = opReg op ∧
      (op + 0x80).extractLsb' 3 3 = if op ≤ 0x47 then (0 : Reg) else 1 := by
  have hall : ∀ op : U8, 0x40 ≤ op ∧ op ≤ 0x4F → (op + 0x80) >>> 6 = 3 ∧
      (op + 0x80).extractLsb' 0 3 = opReg op ∧
      (op + 0x80).extractLsb' 3 3 = if op ≤ 0x47 then (0 : Reg) else 1 := by decide +kernel
  exact hall op hop

/-- The operation of the opcodes 40 to 4F. -/
def shortOp (op : U8) : UnOp := if op ≤ 0x47 then .inc else .dec

theorem executes_short (hop : 0x40 ≤ op ∧ op ≤ 0x4F) :
    Executes (stepOpcode op start p) t ((shortOp op).shortEffect op t.view) 0 := by
  rw [stepOpcode_short hop, shortOp]
  split
  · exact executes_incReg op
  · exact executes_decReg op

theorem executes_long (hop : 0x40 ≤ op ∧ op ≤ 0x4F) (hcode : t.code 0 = op + 0x80) :
    Executes (stepOpcode 0xFF start p) t ((shortOp op).effect .dword t.view) (modRMLength t.code) := by
  have hdigit : digitAt t.code = if op ≤ 0x47 then (0 : Reg) else 1 := by
    rw [digitAt, hcode]
    exact (short_modRM hop).2.2
  have hop' : UnOp.ofDigit (digitAt t.code) = shortOp op := by
    rw [hdigit, shortOp, UnOp.ofDigit]
    split <;> rfl
  rw [← hop']
  refine executes_groupFF start ?_
  rw [hdigit]
  split
  · exact .inl rfl
  · exact .inr rfl

theorem long_operand {v : View} (hop : 0x40 ≤ op ∧ op ≤ 0x4F) (hcode : v.code 0 = op + 0x80) :
    rm v = .reg (opReg op) := by
  obtain ⟨hmod, hrm, -⟩ := short_modRM hop
  rw [← hcode] at hmod hrm
  unfold rm ModRM.operand
  rw [if_pos (show (modRMAt v.regs v.code).isReg = true from decide_eq_true hmod)]
  exact congrArg Operand.reg hrm

/-- The flags agree if and only if there was no carry. -/
theorem short_flags_iff (op : U8) (f a : U32) :
    (shortOp op).flags f a = ((shortOp op).status false a).elim f (·.into f) ↔ carryFlag f = false := by
  have hinto : ∀ c : Status, { c with cf := carryFlag f }.into f = { c with cf := false }.into f ↔
      carryFlag f = false := by
    intro c
    constructor
    · intro h
      have hstatus := congrArg ofFlags h
      rw [ofFlags_into, ofFlags_into] at hstatus
      exact congrArg cf hstatus
    · intro h
      rw [h]
  unfold shortOp
  split
  · exact hinto _
  · exact hinto _

theorem quiet_short (hop : 0x40 ≤ op ∧ op ≤ 0x4F) : quiet op = false := by
  have hall : ∀ op : U8, 0x40 ≤ op ∧ op ≤ 0x4F → quiet op = false := by decide +kernel
  exact hall op hop

theorem short_carry (op : U8) (f a : U32) :
    carryFlag (((shortOp op).status false a).elim f (·.into f)) = false := by
  have hinto : ∀ c : Status, carryFlag ({ c with cf := false }.into f) = false := fun c =>
    congrArg cf (ofFlags_into { c with cf := false } f)
  unfold shortOp
  split
  · exact hinto _
  · exact hinto _

theorem short_long {s' t' : Machine} {qs : List U8} {tr tr' : Trap}
    (hop : 0x40 ≤ op ∧ op ≤ 0x4F) (hrun : s.halted = false) (hat : InstructionAt s.code op ps)
    (hrun' : t.halted = false) (hat' : InstructionAt t.code 0xFF qs)
    (hcode : (t.viewAt qs).code 0 = op + 0x80) (hregs : t.regs = s.regs) (hflags : t.eflags = s.eflags)
    (hstep : step s = .ok tr s') (hstep' : step t = .ok tr' t') :
    t'.regs = s'.regs ∧ (t'.eflags = s'.eflags ↔ carryFlag s.eflags = false) := by
  have hint : op ≠ 0xCD := by
    rintro rfl
    exact absurd hop (by decide)
  obtain ⟨hshort, -⟩ := step_performs (e := (shortOp op).shortEffect op (s.viewAt ps)) (n := 0) hrun hat
    hint (fun u hu => by rw [show s.viewAt ps = u.view from hu.view.symm]; exact executes_short hop) hstep
  obtain ⟨hlong, -⟩ := step_performs (e := (shortOp op).effect .dword (t.viewAt qs))
    (n := modRMLength (t.viewAt qs).code) hrun' hat' (by decide)
    (fun u hu => by
      have hview : t.viewAt qs = u.view := hu.view.symm
      rw [hview] at hcode ⊢
      exact executes_long hop hcode) hstep'
  -- both have the same operand and the same result
  have heffect : (shortOp op).effect .dword (t.viewAt qs) = ⟨.dword, .reg (opReg op),
      some ((shortOp op).apply (s.regs (opReg op))), (shortOp op).flags s.eflags (s.regs (opReg op)), []⟩ := by
    unfold UnOp.effect
    rw [long_operand hop hcode, ← hregs, ← hflags]
    rfl
  rw [heffect] at hlong
  refine ⟨?_, ?_⟩
  · rw [hlong.regs, hshort.regs]
    exact congrArg (putReg · (opReg op) _) hregs
  · rw [hlong.eflags, hshort.eflags]
    exact short_flags_iff op s.eflags _

/-! ## The step that is carried out -/

section Done
variable {s' : Machine} {tr : Trap} (hrun : s.halted = false) (hat : InstructionAt s.code op ps)
  (hstep : step s = .ok tr s') (hkeeps : KeepsFlags (keptFlags op (s.viewAt ps)) s s')
include hrun hat hstep hkeeps

theorem short_of_keeps (hop : 0x40 ≤ op ∧ op ≤ 0x4F) : carryFlag s.eflags = false := by
  have hint : op ≠ 0xCD := by
    rintro rfl
    exact absurd hop (by decide)
  obtain ⟨hdone, -⟩ := step_performs (e := (shortOp op).shortEffect op (s.viewAt ps)) (n := 0) hrun hat
    hint (fun u hu => by rw [show s.viewAt ps = u.view from hu.view.symm]; exact executes_short hop) hstep
  have hmask : keptFlags op (s.viewAt ps) = flagCF := by
    unfold keptFlags
    rw [if_neg (by rw [quiet_short hop]; exact Bool.false_ne_true), if_pos hop]
  rw [hmask] at hkeeps
  have hclear : carryFlag s'.eflags = false := by
    rw [hdone.eflags]
    exact short_carry op s.eflags _
  unfold carryFlag at hclear ⊢
  rwa [hkeeps] at hclear

/-- A shift that has kept ZF, SF and PF of a rotation has found those of its result. -/
theorem shows_of_keeps {n : Nat} {a : Width} {digit : Reg} {zero : Bool} (hint : op ≠ 0xCD)
    (harm : ∀ t, Dispatched s.cleared ps t → Executes (stepOpcode op s.eip (prefixesOf ps)) t
      (shiftEffect w a (s.viewAt ps) res) n)
    (hmask : keptFlags op (s.viewAt ps) = keptByShift digit zero) (hzero : zero = true → res = none)
    (hd : digit = 0 ∨ digit = 1) :
    ∀ r cf of, res = some (r, cf, of) → Shows (ofFlags s.eflags) (r.setWidth w.bits) := by
  rintro r cf of rfl
  obtain ⟨hdone, -⟩ := step_performs hrun hat hint harm hstep
  rw [hmask, keptByShift, if_neg fun h => Option.some_ne_none _ (hzero h), if_pos hd] at hkeeps
  have hset : s'.eflags = (resultStatus (r.setWidth w.bits) cf of).into s.eflags := hdone.eflags
  unfold KeepsFlags at hkeeps
  rw [hset] at hkeeps
  exact kept_iff.mp hkeeps

theorem flagsExact_of_keeps : FlagsExact op (decide (0x66 ∈ ps)) (s.viewAt ps) := by
  refine ⟨short_of_keeps hrun hat hstep hkeeps, fun hop hd => ?_, fun hop hd => ?_⟩
  · refine (rotateByte_shows_iff hd _ _).mp (shows_of_keeps (w := .byte) (a := .byte)
      (n := shiftByteLength op (s.viewAt ps)) hrun hat hstep hkeeps ?_ ?_ ?_ shiftByte_zero hd)
    · rintro rfl
      exact absurd hop (by decide)
    · intro t ht
      rw [show s.viewAt ps = t.view from ht.view.symm]
      rw [stepOpcode_byteShift hop]
      exact executes_groupC0 op s.eip
    · rcases hop with rfl | rfl <;> rfl
  · rw [← prefixesOf_operand16]
    refine (rotateWord_shows_iff hd _ _ _).mp (shows_of_keeps (a := .dword)
      (n := shiftWordLength op (s.viewAt ps)) hrun hat hstep hkeeps ?_ ?_ ?_ shiftWord_zero hd)
    · rintro rfl
      exact absurd hop (by decide)
    · intro t ht
      rw [show s.viewAt ps = t.view from ht.view.symm]
      rw [stepOpcode_wordShift hop]
      exact executes_groupC1 op s.eip _
    · rcases hop with rfl | rfl | rfl <;> rfl

end Done

/-! ## Flag preservation -/

/-- A step that is carried out leaves the flags that its instruction has to leave if and only if
`FlagsExact` holds, and a step that fails leaves them; the two encodings of INC and DEC have the
same effect on the registers, and the same flags exactly where there was no carry. -/
theorem flag_preservation (s : Machine) (ps : List U8) (op : U8) (hrun : s.halted = false)
    (hat : InstructionAt s.code op ps) :
    (∀ tr s', step s = .ok tr s' → (KeepsFlags (keptFlags op (s.viewAt ps)) s s' ↔
      FlagsExact op (decide (0x66 ∈ ps)) (s.viewAt ps))) ∧
    (∀ e s', step s = .error e s' → KeepsFlags (keptFlags op (s.viewAt ps)) s s') ∧
    ∀ (t s' t' : Machine) (qs : List U8) (tr tr' : Trap), 0x40 ≤ op ∧ op ≤ 0x4F →
      t.halted = false → InstructionAt t.code 0xFF qs → (t.viewAt qs).code 0 = op + 0x80 →
      t.regs = s.regs → t.eflags = s.eflags → step s = .ok tr s' → step t = .ok tr' t' →
      t'.regs = s'.regs ∧ (t'.eflags = s'.eflags ↔ carryFlag s.eflags = false) := by
  refine ⟨fun tr s' hstep => ⟨flagsExact_of_keeps hrun hat hstep, fun hexact =>
    step_keeps hrun hat hexact tr s' hstep⟩, step_aborts hrun hat, ?_⟩
  intro t s' t' qs tr tr' hop hrun' hat' hcode hregs hflags hstep hstep'
  exact short_long hop hrun hat hrun' hat' hcode hregs hflags hstep hstep'

def incrementing (code : List U8) (eflags : U32) : Machine :=
  .running code (fun r => if r = ECX then 0xffffffff else 0) eflags

/-- Without a carry the two encodings agree, and the carry stays clear. -/
theorem flag_preservation_inc :
    (after step (incrementing [0x41] 2)).eflags &&& flagCF = 0 ∧
      (after step (incrementing [0xFF, 0xC1] 2)).eflags = (after step (incrementing [0x41] 2)).eflags := by
  have hshort : InstructionAt (incrementing [0x41] 2).code 0x41 [] := by decide
  obtain ⟨hkeeps, -, hboth⟩ := flag_preservation (incrementing [0x41] 2) [] 0x41 rfl hshort
  refine ⟨(hkeeps .none _ (ok_of_returned (by decide +kernel))).mpr
    ⟨fun _ => by decide, fun h => absurd h (by decide), fun h => absurd h (by decide)⟩, ?_⟩
  obtain ⟨-, hiff⟩ := hboth (incrementing [0xFF, 0xC1] 2) _ _ [] .none .none (by decide) rfl
    (by decide) (by decide) rfl rfl
    (ok_of_returned (by decide +kernel)) (ok_of_returned (by decide +kernel))
  exact hiff.mpr (by decide)

/-- A step that changes a flag which its instruction has to leave. -/
structure LosesFlags (op : U8) (s : Machine) : Prop where
  running : s.halted = false
  encoded : InstructionAt s.code op []
  stepped : step s = .ok .none (after step s)
  lost : ¬ KeepsFlags (keptFlags op (s.viewAt [])) s (after step s)

/-- With a carry, INC ECX loses it and the encodings differ; ROL AL, 1 loses the zero flag. -/
theorem flag_preservation_lost :
    LosesFlags 0x41 (incrementing [0x41] 3) ∧
      (after step (incrementing [0xFF, 0xC1] 3)).eflags ≠ (after step (incrementing [0x41] 3)).eflags ∧
      LosesFlags 0xD0 (.running [0xD0, 0xC0] (fun _ => 1) 0x42) := by
  refine ⟨⟨rfl, by decide, ok_of_returned (by decide +kernel), ?_⟩, by decide +kernel,
    ⟨rfl, by decide, ok_of_returned (by decide +kernel), ?_⟩⟩
  · decide +kernel
  · decide +kernel

end IshGo.I386
