/-
# `IshGo.I386.Flags` — what the setters of the flags compute

The setters of `IshGo.I386.Cpu` all do the same: they clear the five flags of `flagsArith` and
set them anew (`Status.into`).  What they set them to is computed in various ways, with masks
and sign bits; here it is said in terms of the operands as words of `w` bits:

    setAddFlags, setAddFlagsN, setADCFlagsN     sumStatus      the carry and the overflow of a sum
    setSubFlags, setSubFlagsN                   diffStatus     the borrow and the overflow of a difference
    setLogicFlags, setLogicFlagsN               no carry, no overflow
    setShiftFlags, setShiftFlagsN               carry and overflow as they are given
-/
import IshGo.I386.Cpu
import IshGo.Lib.Align
import IshGo.Lib.Words

namespace IshGo.I386

open Lib BitVec

variable {m result : U32}

/-! ## The five flags -/

structure Status where
  cf : Bool
  zf : Bool
  sf : Bool
  of : Bool
  pf : Bool
  deriving DecidableEq, Repr

namespace Status

def ofFlags (f : U32) : Status :=
  ⟨f &&& flagCF ≠ 0, f &&& flagZF ≠ 0, f &&& flagSF ≠ 0, f &&& flagOF ≠ 0, f &&& flagPF ≠ 0⟩

def into (c : Status) (f : U32) : U32 :=
  orIf (orIf (orIf (orIf (orIf (f &&& ~~~flagsArith) c.cf flagCF) c.zf flagZF) c.sf flagSF) c.of
    flagOF) c.pf flagPF

end Status

theorem orIf_and (f : U32) (cond : Bool) (m m' : U32) :
    orIf f cond m &&& m' = orIf (f &&& m') cond (m &&& m') := by
  cases cond with
  | false => rfl
  | true =>
    show (f ||| m) &&& m' = (f &&& m') ||| (m &&& m')
    refine eq_of_getLsbD_eq fun i _ => ?_
    simp only [getLsbD_and, getLsbD_or]
    cases m'.getLsbD i <;> simp

theorem orIf_zero (f : U32) (cond : Bool) : orIf f cond 0#32 = f := by
  cases cond with
  | false => rfl
  | true => exact or_zero

theorem orIf_comm (f : U32) (p q : Bool) (m n : U32) : orIf (orIf f p m) q n = orIf (orIf f q n) p m := by
  cases p <;> cases q <;> try rfl
  show f ||| m ||| n = f ||| n ||| m
  rw [BitVec.or_assoc, BitVec.or_assoc, BitVec.or_comm m n]

namespace Status

theorem into_and {c : Status} {f : U32} {cond : Bool} (hm : m ≠ 0)
    (h : c.into f &&& m = orIf 0#32 cond m) : decide (c.into f &&& m ≠ 0) = cond := by
  rw [h]
  cases cond with
  | false => rfl
  | true =>
    refine decide_eq_true ?_
    rwa [orIf, if_pos rfl, zero_or]

theorem ofFlags_into (c : Status) (f : U32) : ofFlags (c.into f) = c := by
  unfold ofFlags
  rw [into_and (m := flagCF) (by decide), into_and (m := flagZF) (by decide),
    into_and (m := flagSF) (by decide), into_and (m := flagOF) (by decide),
    into_and (m := flagPF) (by decide)]
  all_goals
    simp [into, orIf_and, orIf_zero, BitVec.and_assoc, flagCF, flagPF, flagZF, flagSF, flagOF, flagsArith]

theorem into_and_not (c : Status) (f : U32) : c.into f &&& ~~~flagsArith = f &&& ~~~flagsArith := by
  simp [into, orIf_and, orIf_zero, BitVec.and_assoc, flagCF, flagPF, flagZF, flagSF, flagOF, flagsArith]

end Status

/-! The flags, bit by bit. -/

theorem getLsbD_orIf (f : U32) (p : Bool) (m : U32) (i : Nat) :
    (orIf f p m).getLsbD i = (f.getLsbD i || (p && m.getLsbD i)) := by
  cases p with
  | false => simp [orIf]
  | true => simp [orIf]

theorem getLsbD_flag {k : Nat} (h : m = twoPow 32 k) (hk : k < 32) (i : Nat) :
    m.getLsbD i = decide (i = k) := by
  rw [h, getLsbD_twoPow]
  simp [hk, eq_comm]

theorem Status.getLsbD_into (c : Status) (f : U32) (i : Nat) :
    (c.into f).getLsbD i = if i = 0 then c.cf else if i = 2 then c.pf else if i = 6 then c.zf
      else if i = 7 then c.sf else if i = 11 then c.of else f.getLsbD i := by
  have hcf := getLsbD_flag (show flagCF = twoPow 32 0 from rfl) (by decide) i
  have hpf := getLsbD_flag (show flagPF = twoPow 32 2 from rfl) (by decide) i
  have hzf := getLsbD_flag (show flagZF = twoPow 32 6 from rfl) (by decide) i
  have hsf := getLsbD_flag (show flagSF = twoPow 32 7 from rfl) (by decide) i
  have hof := getLsbD_flag (show flagOF = twoPow 32 11 from rfl) (by decide) i
  have hf : (f &&& ~~~flagsArith).getLsbD i =
      (f.getLsbD i && !(decide (i = 0) || decide (i = 2) || decide (i = 6) || decide (i = 7) ||
        decide (i = 11))) := by
    unfold flagsArith
    simp only [getLsbD_and, getLsbD_not, getLsbD_or, hcf, hpf, hzf, hsf, hof]
    by_cases hi : i < 32
    · simp [hi]
    · simp [getLsbD_of_ge f i (by omega)]
  unfold Status.into
  simp only [getLsbD_orIf, hf, hcf, hpf, hzf, hsf, hof]
  by_cases h0 : i = 0
  · subst h0; simp
  by_cases h2 : i = 2
  · subst h2; simp
  by_cases h6 : i = 6
  · subst h6; simp
  by_cases h7 : i = 7
  · subst h7; simp
  by_cases h11 : i = 11
  · subst h11; simp
  simp [h0, h2, h6, h7, h11]

/-! ## Masks and signs -/

variable {w : Nat}

theorem two_pow_le (hw : w ≤ 32) : 2 ^ w ≤ 2 ^ 32 := Nat.pow_le_pow_right (by decide) hw

theorem toNat_mask64 (hw : w ≤ 32) : ((1 : U64) <<< w - 1).toNat = 2 ^ w - 1 := by
  have hle := two_pow_le hw
  have hpos : 0 < 2 ^ w := Nat.two_pow_pos w
  have hone : (1 : U64).toNat = 1 := rfl
  rw [toNat_sub, toNat_shiftLeft, hone, Nat.one_shiftLeft]
  omega

theorem maskN_eq (hw : w ≤ 32) : maskN w = BitVec.ofNat 32 (2 ^ w - 1) := by
  refine eq_of_toNat_eq ?_
  rw [maskN, toNat_setWidth, toNat_mask64 hw, toNat_ofNat]

theorem and_maskN (hw : w ≤ 32) (v : U32) : v &&& maskN w = (v.setWidth w).setWidth 32 := by
  refine eq_of_toNat_eq ?_
  rw [maskN_eq hw, toNat_and_mask v hw, toNat_setWidth, toNat_setWidth]
  have hle := two_pow_le hw
  have hlt : v.toNat % 2 ^ w < 2 ^ w := Nat.mod_lt _ (Nat.two_pow_pos w)
  rw [Nat.mod_eq_of_lt (hlt.trans_le hle)]

theorem setWidth_and_maskN (hw : w ≤ 32) (a : BitVec w) : a.setWidth 32 &&& maskN w = a.setWidth 32 := by
  rw [and_maskN hw, setWidth_setWidth_of_le _ hw, setWidth_eq]

theorem toNat_setWidth_32 (hw : w ≤ 32) (a : BitVec w) : (a.setWidth 32).toNat = a.toNat := by
  have hle := two_pow_le hw
  rw [toNat_setWidth, Nat.mod_eq_of_lt (a.isLt.trans_le hle)]

theorem and_bit_ne (v : U32) {i : Nat} (hi : i < 32) : decide (v &&& (1 <<< i) ≠ 0) = v.getLsbD i := by
  have hpow : ((1 <<< i : Nat) : U32) = twoPow 32 i := by
    refine eq_of_toNat_eq ?_
    rw [toNat_twoPow, natCast_eq_ofNat, toNat_ofNat, Nat.one_shiftLeft]
  rw [hpow, and_twoPow]
  cases v.getLsbD i with
  | false => rfl
  | true =>
    refine decide_eq_true ?_
    rw [if_pos rfl, ne_eq, ← toNat_inj, toNat_twoPow, Nat.mod_eq_of_lt]
    · exact (Nat.two_pow_pos i).ne'
    · exact Nat.pow_lt_pow_right (by decide) hi

theorem sign_ne (hw₀ : 0 < w) (hw : w ≤ 32) (v : U32) :
    decide (v &&& (1 <<< (w - 1)) ≠ 0) = (v.setWidth w).msb := by
  rw [and_bit_ne v (by omega), msb_eq_getLsbD_last, getLsbD_setWidth,
    decide_eq_true (show w - 1 < w by omega), Bool.true_and]

/-! ## What the setters set -/

def parity (r : BitVec w) : Bool := (List.range 8).countP (r.getLsbD ·) % 2 = 0

theorem evenParity_eq (hw : w ≤ 32) (r : BitVec w) : evenParity (r.setWidth 32) = parity r := by
  have hbyte : ∀ b : U8, decide (parityLoop 8 b 0 % 2 = 0) = parity b := by decide +kernel
  have hlow : parity (r.setWidth 8) = parity r := by
    have hcount : (List.range 8).countP ((r.setWidth 8).getLsbD ·) =
        (List.range 8).countP (r.getLsbD ·) := by
      refine List.countP_congr fun i hi => ?_
      rw [getLsbD_setWidth, decide_eq_true (List.mem_range.mp hi), Bool.true_and]
    rw [parity, parity, hcount]
  rw [evenParity, hbyte, ← hlow]
  congr 1
  refine eq_of_toNat_eq ?_
  rw [toNat_setWidth, toNat_setWidth_32 hw, toNat_setWidth]

/-- The flags of a result, with the carry and the overflow that go with it. -/
def resultStatus (r : BitVec w) (cf of : Bool) : Status := ⟨cf, r = 0, r.msb, of, parity r⟩

def sumStatus (a b : BitVec w) (c : Bool) : Status :=
  resultStatus (addCarry a b c) (carryOut a b c) (addOverflow a b c)

theorem sumStatus_comm (a b : BitVec w) (c : Bool) : sumStatus a b c = sumStatus b a c := by
  simp only [sumStatus, addCarry, carryOut, addOverflow, BitVec.add_comm a b, Nat.add_comm a.toNat,
    Int.add_comm a.toInt]

def diffStatus (a b : BitVec w) (c : Bool) : Status :=
  resultStatus (subBorrow a b c) (borrowOut a b c) (subOverflow a b c)

/-- A carry as the source has it. -/
def carryWord (c : Bool) : U32 := if c then 1 else 0

section Setters
variable (f : U32)

theorem into_result (hw₀ : 0 < w) (hw : w ≤ 32) {res : U32} {r : BitVec w}
    (hres : res = r.setWidth 32) {cf of cf' of' : Bool} (hcf : cf = cf') (hof : of = of') :
    Status.into ⟨cf, res = 0, res &&& (1 <<< (w - 1)) ≠ 0, of, evenParity res⟩ f =
      (resultStatus r cf' of').into f := by
  have hzero : decide (res = 0) = decide (r = 0) := by
    rw [hres, decide_eq_decide, ← toNat_inj, ← toNat_inj, toNat_setWidth_32 hw]
    rfl
  have hback : (r.setWidth 32).setWidth w = r := by
    rw [setWidth_setWidth_of_le _ hw, setWidth_eq]
  rw [hzero, sign_ne hw₀ hw, hres, evenParity_eq hw, hback, hcf, hof, resultStatus]

theorem logicFlagsN_eq (hw₀ : 0 < w) (hw : w ≤ 32) {r : BitVec w}
    (hr : result.setWidth w = r) : logicFlagsN f result w = (resultStatus r false false).into f := by
  have hres : result &&& maskN w = r.setWidth 32 := by rw [and_maskN hw, hr]
  have h := into_result f hw₀ hw hres (Eq.refl false) (Eq.refl false)
  exact h

theorem shiftFlagsN_eq (hw₀ : 0 < w) (hw : w ≤ 32) {r : BitVec w}
    (hr : result.setWidth w = r) (cf of : Bool) :
    shiftFlagsN f result cf of w = (resultStatus r cf of).into f := by
  have hres : result &&& maskN w = r.setWidth 32 := by rw [and_maskN hw, hr]
  have h := into_result f hw₀ hw hres (Eq.refl cf) (Eq.refl of)
  rw [← h, shiftFlagsN, Status.into]
  rw [orIf_comm _ of, orIf_comm _ of]

theorem subFlagsN_eq (hw₀ : 0 < w) (hw : w ≤ 32) {a b : BitVec w} (hr : result.setWidth w = a - b) :
    subFlagsN f (a.setWidth 32) (b.setWidth 32) result w = (diffStatus a b false).into f := by
  have hsub : subBorrow a b false = a - b := BitVec.sub_zero _
  have hres : result &&& maskN w = (subBorrow a b false).setWidth 32 := by
    rw [and_maskN hw, hr, hsub]
  have hcf : decide ((a.setWidth 32 &&& maskN w) < (b.setWidth 32 &&& maskN w)) =
      borrowOut a b false := by
    rw [setWidth_and_maskN hw, setWidth_and_maskN hw, borrowOut, decide_eq_decide, lt_def,
      toNat_setWidth_32 hw, toNat_setWidth_32 hw]
    rfl
  have hof : decide ((a.setWidth 32 ^^^ b.setWidth 32) &&&
      (a.setWidth 32 ^^^ (result &&& maskN w)) &&& (1 <<< (w - 1)) ≠ 0) = subOverflow a b false := by
    rw [sign_ne hw₀ hw, hres, subOverflow_eq hw₀]
    simp [setWidth_setWidth_of_le _ hw, bne_comm]
  exact into_result f hw₀ hw hres hcf hof

/-- The sum that the source computes in 64 bits. -/
def wideSum (a b : BitVec w) (c : Bool) : U64 :=
  (a.setWidth 32 &&& maskN w).setWidth 64 + (b.setWidth 32 &&& maskN w).setWidth 64 +
    (carryWord c).setWidth 64

theorem toNat_wideSum (hw : w ≤ 32) (a b : BitVec w) (c : Bool) :
    (wideSum a b c).toNat = a.toNat + b.toNat + c.toNat := by
  have hle := two_pow_le hw
  have hcarry : (carryWord c).toNat = c.toNat := by cases c <;> rfl
  rw [wideSum, setWidth_and_maskN hw, setWidth_and_maskN hw]
  simp only [toNat_add, toNat_setWidth, hcarry]
  omega

theorem wideSum_carry (hw : w ≤ 32) (a b : BitVec w) (c : Bool) :
    decide (wideSum a b c > (1 : U64) <<< w - 1) = carryOut a b c := by
  rw [carryOut, decide_eq_decide, gt_iff_lt, lt_def, toNat_mask64 hw, toNat_wideSum hw]
  omega

theorem wideSum_result (hw : w ≤ 32) (a b : BitVec w) (c : Bool) :
    (wideSum a b c &&& ((1 : U64) <<< w - 1)).setWidth 32 = (addCarry a b c).setWidth 32 := by
  have hle := two_pow_le hw
  refine eq_of_toNat_eq ?_
  rw [toNat_setWidth_32 hw, toNat_setWidth, toNat_and, toNat_mask64 hw,
    Nat.and_two_pow_sub_one_eq_mod, toNat_wideSum hw, addCarry, toNat_add, toNat_add,
    toNat_ofNat, Nat.add_mod_mod, Nat.mod_add_mod]
  exact Nat.mod_eq_of_lt ((Nat.mod_lt _ (Nat.two_pow_pos w)).trans_le hle)

/-- The test for the overflow of a sum, on the sign bits. -/
theorem sign_overflow (hw₀ : 0 < w) (hw : w ≤ 32) (a b : BitVec w) (c : Bool) :
    decide (~~~(a.setWidth 32 ^^^ b.setWidth 32) &&&
      (a.setWidth 32 ^^^ (addCarry a b c).setWidth 32) &&& (1 <<< (w - 1)) ≠ 0) =
      addOverflow a b c := by
  rw [sign_ne hw₀ hw, addOverflow_eq hw₀]
  simp [setWidth_setWidth_of_le _ hw, setWidth_not hw, hw₀]
  cases a.msb <;> cases b.msb <;> cases (addCarry a b c).msb <;> rfl

theorem addFlagsN_eq (hw₀ : 0 < w) (hw : w ≤ 32) (a b : BitVec w) :
    addFlagsN f (a.setWidth 32) (b.setWidth 32) w = (sumStatus a b false).into f := by
  have hsum : (a.setWidth 32 &&& maskN w).setWidth 64 + (b.setWidth 32 &&& maskN w).setWidth 64 =
      wideSum a b false := (BitVec.add_zero _).symm
  have hres := wideSum_result hw a b false
  have hof := sign_overflow hw₀ hw a b false
  have hcf := wideSum_carry hw a b false
  rw [← hres] at hof
  rw [addFlagsN, ← maskN]
  rw [hsum]
  exact into_result f hw₀ hw hres hcf hof

/-- The second half of the test that `setADCFlagsN` makes adds nothing to the first. -/
theorem sign_or_iff (hw₀ : 0 < w) (hw : w ≤ 32) (x y : U32) (p : Prop) :
    (~~~x &&& y &&& (1 <<< (w - 1)) ≠ 0 ∨
      p ∧ x &&& (1 <<< (w - 1)) = 0 ∧ y &&& (1 <<< (w - 1)) ≠ 0) ↔
      ~~~x &&& y &&& (1 <<< (w - 1)) ≠ 0 := by
  refine ⟨?_, Or.inl⟩
  rintro (h | ⟨_, hx, hy⟩)
  · exact h
  have hx' := sign_ne hw₀ hw x
  have hy' := sign_ne hw₀ hw y
  rw [decide_eq_false (not_not.mpr hx)] at hx'
  rw [decide_eq_true hy] at hy'
  refine of_decide_eq_true ?_
  rw [sign_ne hw₀ hw]
  simp [setWidth_not hw, hw₀, ← hx', ← hy']

theorem adcFlagsN_eq (hw₀ : 0 < w) (hw : w ≤ 32) (a b : BitVec w) (c : Bool) :
    adcFlagsN f (a.setWidth 32) (b.setWidth 32) (carryWord c) w = (sumStatus a b c).into f := by
  have hres := wideSum_result hw a b c
  have hof := sign_overflow hw₀ hw a b c
  have hcf := wideSum_carry hw a b c
  rw [← hres] at hof
  rw [adcFlagsN, ← maskN, ← wideSum]
  simp only [sign_or_iff hw₀ hw]
  exact into_result f hw₀ hw hres hcf hof

/-! ## Whole words -/

theorem sign32_eq : (0x80000000 : U32) = ((1 <<< (32 - 1) : Nat) : U32) := rfl

theorem logicFlags_eq (r : U32) : logicFlags f r = (resultStatus r false false).into f := by
  have h := into_result f (by decide) (Nat.le_refl 32) (r.setWidth_eq).symm (Eq.refl false)
    (Eq.refl false)
  exact h

theorem shiftFlags_eq (r : U32) (cf of : Bool) : shiftFlags f r cf of = (resultStatus r cf of).into f := by
  have h := into_result f (by decide) (Nat.le_refl 32) (r.setWidth_eq).symm (Eq.refl cf) (Eq.refl of)
  rw [← h, shiftFlags, sign32_eq, Status.into]
  rw [orIf_comm _ of, orIf_comm _ of]

theorem subFlags_eq (a b : U32) : subFlags f a b (a - b) = (diffStatus a b false).into f := by
  have h := subFlagsN_eq f (by decide) (Nat.le_refl 32) (setWidth_eq (a - b))
  have hmask : ∀ v : U32, v &&& maskN 32 = v := fun v => and_allOnes
  rw [subFlagsN, setWidth_eq, setWidth_eq, hmask, hmask, hmask] at h
  exact h

theorem addFlags_eq (a b : U32) : addFlags f a b (a + b) = (sumStatus a b false).into f := by
  have hsum : addCarry a b false = a + b := BitVec.add_zero _
  have hres : a + b = (addCarry a b false).setWidth 32 := by rw [hsum, setWidth_eq]
  have hof := sign_overflow (by decide) (Nat.le_refl 32) a b false
  have hcf : decide (a + b < a) = carryOut a b false := by
    rw [carryOut, decide_eq_decide, Bool.toNat_false]
    bv_omega
  rw [← hres, setWidth_eq, setWidth_eq] at hof
  exact into_result f (by decide) (Nat.le_refl 32) hres hcf hof

theorem orIf_again (p : Bool) (m : U32) : orIf (orIf f p m) p m = orIf f p m := by
  cases p with
  | false => rfl
  | true => exact (BitVec.or_assoc f m m).trans (congrArg (f ||| ·) or_self)

theorem into_again (r : U32) (cf of : Bool) :
    orIf (orIf ((resultStatus r cf of).into f) (r = 0) flagZF) (r &&& 0x80000000 ≠ 0) flagSF =
      (resultStatus r cf of).into f := by
  have hsign : decide (r &&& 0x80000000 ≠ 0) = r.msb := by
    rw [sign32_eq, sign_ne (by decide) (Nat.le_refl 32), setWidth_eq]
  rw [hsign]
  unfold Status.into resultStatus
  rw [orIf_comm _ (parity r), orIf_comm _ of, orIf_comm _ r.msb (r = 0), orIf_again,
    orIf_comm _ (parity r), orIf_comm _ of, orIf_again]

/-! ## Subtraction with borrow -/

/-- What `setSBBFlagsN` makes of its operands. -/
def sbbStatus (a b : BitVec w) (c : Bool) : Status :=
  resultStatus (subBorrow a b c) (a.toNat < (b.toNat + c.toNat) % 2 ^ 32)
    (a.msb != (b + BitVec.ofNat w c.toNat).msb && (subBorrow a b c).msb != a.msb)

theorem sbbFlagsN_eq (hw₀ : 0 < w) (hw : w ≤ 32) {a b : BitVec w} {c : Bool}
    (hr : result.setWidth w = subBorrow a b c) :
    sbbFlagsN f (a.setWidth 32) (b.setWidth 32) (carryWord c) result w = (sbbStatus a b c).into f := by
  have hres : result &&& maskN w = (subBorrow a b c).setWidth 32 := by rw [and_maskN hw, hr]
  have hcarry : carryWord c = BitVec.ofNat 32 c.toNat := by cases c <;> rfl
  have hcf : decide ((a.setWidth 32 &&& maskN w) < b.setWidth 32 + carryWord c) =
      decide (a.toNat < (b.toNat + c.toNat) % 2 ^ 32) := by
    rw [decide_eq_decide, setWidth_and_maskN hw, lt_def, toNat_add, hcarry,
      toNat_setWidth_32 hw, toNat_setWidth_32 hw, toNat_ofNat, Nat.add_mod_mod]
  have hof : decide ((a.setWidth 32 ^^^ (b.setWidth 32 + carryWord c)) &&&
      (a.setWidth 32 ^^^ (result &&& maskN w)) &&& (1 <<< (w - 1)) ≠ 0) =
      (a.msb != (b + BitVec.ofNat w c.toNat).msb && (subBorrow a b c).msb != a.msb) := by
    rw [sign_ne hw₀ hw, hres, hcarry]
    simp [setWidth_setWidth_of_le _ hw, setWidth_add _ _ hw, setWidth_ofNat_of_le hw, bne_comm]
  exact into_result f hw₀ hw hres hcf hof

end Setters

section Borrow
variable (a b : BitVec w) (c : Bool)

/-- The borrow comes out right unless the subtrahend with the borrow is `2^32`. -/
theorem sbbStatus_cf_iff (hw : w ≤ 32) :
    (sbbStatus a b c).cf = borrowOut a b c ↔ ¬ (c = true ∧ w = 32 ∧ b = allOnes w) := by
  have hb := b.isLt
  have hones : b = allOnes w ↔ b.toNat = 2 ^ w - 1 := by
    rw [← toNat_inj, toNat_allOnes]
  show decide (a.toNat < (b.toNat + c.toNat) % 2 ^ 32) = decide (a.toNat < b.toNat + c.toNat) ↔ _
  rw [decide_eq_decide, hones]
  cases c with
  | false =>
    have hle := two_pow_le hw
    rw [Bool.toNat_false, Nat.add_zero, Nat.mod_eq_of_lt (hb.trans_le hle)]
    simp
  | true =>
    rw [Bool.toNat_true]
    by_cases hfull : w = 32
    · subst hfull
      simp only [true_and]
      omega
    · have hle : 2 ^ w ≤ 2 ^ 31 := Nat.pow_le_pow_right (by decide) (by omega)
      rw [Nat.mod_eq_of_lt (by omega)]
      simp [hfull]

/-- The overflow comes out right unless the borrow changes the sign of the subtrahend. -/
theorem sbbStatus_of_iff (hw₀ : 0 < w) :
    (sbbStatus a b c).of = subOverflow a b c ↔ ¬ (c = true ∧ b = intMax w) := by
  have hmax : b = intMax w ↔ b.toNat = 2 ^ (w - 1) - 1 := by
    rw [← toNat_inj, toNat_intMax]
  have hpow := two_pow_eq hw₀
  rw [subOverflow_eq hw₀, hmax]
  show (a.msb != (b + BitVec.ofNat w c.toNat).msb && (subBorrow a b c).msb != a.msb) =
    (a.msb != b.msb && (subBorrow a b c).msb != a.msb) ↔ _
  cases c with
  | false => simp
  | true =>
    have hdiff := toNat_subBorrow a b true
    have hborrow := Bool.toNat_le (borrowOut a b true)
    have hsum := toNat_addCarry b 0#w true
    have hcarry := Bool.toNat_le (carryOut b 0#w true)
    have hb1 : addCarry b 0#w true = b + BitVec.ofNat w 1 := by rw [addCarry, BitVec.add_zero]; rfl
    rw [hb1, toNat_zero, Bool.toNat_true, hpow, Nat.mul_assoc] at hsum
    rw [Bool.toNat_true, hpow, Nat.mul_assoc] at hdiff
    rw [Bool.toNat_true]
    rcases sign_cases hw₀ a with ⟨ha, hla, -⟩ | ⟨ha, hla, -⟩ <;>
    rcases sign_cases hw₀ b with ⟨hb, hlb, -⟩ | ⟨hb, hlb, -⟩ <;>
    rcases sign_cases hw₀ (subBorrow a b true) with ⟨hr, hlr, -⟩ | ⟨hr, hlr, -⟩ <;>
    rcases sign_cases hw₀ (b + BitVec.ofNat w 1) with ⟨hs, hls, -⟩ | ⟨hs, hls, -⟩ <;>
    rw [ha, hb, hr, hs] <;>
    rcases Nat.le_one_iff_eq_zero_or_eq_one.mp hborrow with hz | hz <;>
    rw [hz] at hdiff <;>
    rcases Nat.le_one_iff_eq_zero_or_eq_one.mp hcarry with hz' | hz' <;>
    rw [hz'] at hsum <;>
    simp <;> omega

end Borrow

end IshGo.I386
