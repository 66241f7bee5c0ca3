/-
# `IshGo.Lib.Words` — carries, borrows, and numbers of several words

A sum of two words and a carry is a word and a carry again, and a difference with a borrow
likewise; whether the result is right in two's complement can be read off three sign bits.
-/
import Mathlib.Data.Nat.Digits.Lemmas
import Mathlib.Tactic.Linarith
import Mathlib.Tactic.LinearCombination
import Mathlib.Tactic.Ring

namespace IshGo.Lib

open List

variable {w : Nat}

/-- A number that `w` bits hold in two's complement. -/
def Fits (w : Nat) (z : Int) : Prop := -((2 ^ (w - 1) : Nat) : Int) ≤ z ∧ z < (2 ^ (w - 1) : Nat)

instance (w : Nat) (z : Int) : Decidable (Fits w z) := inferInstanceAs (Decidable (_ ∧ _))

/-! ## One word -/

section Word
variable (a b : BitVec w) (c : Bool)

def addCarry : BitVec w := a + b + BitVec.ofNat w c.toNat

def carryOut : Bool := 2 ^ w ≤ a.toNat + b.toNat + c.toNat

/-- The sum is not what `w` bits can hold. -/
def addOverflow : Bool := ¬ Fits w (a.toInt + b.toInt + c.toNat)

def subBorrow : BitVec w := a - b - BitVec.ofNat w c.toNat

def borrowOut : Bool := a.toNat < b.toNat + c.toNat

/-- The difference is not what `w` bits can hold. -/
def subOverflow : Bool := ¬ Fits w (a.toInt - b.toInt - c.toNat)

theorem toNat_addCarry :
    (addCarry a b c).toNat + 2 ^ w * (carryOut a b c).toNat = a.toNat + b.toNat + c.toNat := by
  have hc := Bool.toNat_le c
  simp only [addCarry, carryOut, BitVec.toNat_add, BitVec.toNat_ofNat, Nat.add_mod_mod, Nat.mod_add_mod]
  by_cases hwrap : 2 ^ w ≤ a.toNat + b.toNat + c.toNat
  · have hsmall : a.toNat + b.toNat + c.toNat - 2 ^ w < 2 ^ w := by omega
    rw [Nat.mod_eq_sub_mod hwrap, Nat.mod_eq_of_lt hsmall, decide_eq_true hwrap, Bool.toNat_true]
    omega
  · rw [Nat.mod_eq_of_lt (Nat.lt_of_not_le hwrap), decide_eq_false hwrap, Bool.toNat_false]
    omega

theorem toNat_subBorrow :
    (subBorrow a b c).toNat + b.toNat + c.toNat = a.toNat + 2 ^ w * (borrowOut a b c).toNat := by
  -- the difference is what has to be added to get back
  have hback : addCarry (subBorrow a b c) b c = a := by
    rw [addCarry, subBorrow, BitVec.sub_sub, BitVec.add_assoc, BitVec.sub_add_cancel]
  have hsum := toNat_addCarry (subBorrow a b c) b c
  rw [hback] at hsum
  cases hcarry : carryOut (subBorrow a b c) b c with
  | false =>
    have hb : borrowOut a b c = false := by
      rw [hcarry, Bool.toNat_false] at hsum
      exact decide_eq_false (by omega)
    rw [hb, hsum.symm, hcarry]
  | true =>
    have hb : borrowOut a b c = true := by
      rw [hcarry, Bool.toNat_true] at hsum
      exact decide_eq_true (by omega)
    rw [hb, hsum.symm, hcarry]

theorem subBorrow_inj (hw : 0 < w) {a b : BitVec w} {c c' : Bool}
    (h : subBorrow a b c = subBorrow a b c') : c = c' := by
  have hlt : 1 < 2 ^ w := Nat.one_lt_two_pow hw.ne'
  have hc := Bool.toNat_le c
  have hc' := Bool.toNat_le c'
  have hbits : BitVec.ofNat w c.toNat = BitVec.ofNat w c'.toNat := by
    exact BitVec.sub_right_inj (a - b) |>.mp h
  have hnat := congrArg BitVec.toNat hbits
  rw [BitVec.toNat_ofNat, BitVec.toNat_ofNat, Nat.mod_eq_of_lt (by omega),
    Nat.mod_eq_of_lt (by omega)] at hnat
  cases c <;> cases c' <;> first | rfl | cases hnat

end Word

/-! ## Signs -/

theorem two_pow_eq (hw : 0 < w) : 2 ^ w = 2 * 2 ^ (w - 1) := by
  rw [← Nat.pow_succ']
  congr 1
  omega

theorem sign_cases (hw : 0 < w) (a : BitVec w) :
    (a.msb = false ∧ a.toNat < 2 ^ (w - 1) ∧ a.toInt = a.toNat) ∨
    (a.msb = true ∧ 2 ^ (w - 1) ≤ a.toNat ∧ a.toInt = a.toNat - 2 * (2 ^ (w - 1) : Nat)) := by
  have hint := BitVec.toInt_eq_msb_cond a
  have hpow := two_pow_eq hw
  cases hs : a.msb with
  | false =>
    have hlt := BitVec.msb_eq_false_iff_two_mul_lt.mp hs
    refine Or.inl ⟨rfl, by omega, ?_⟩
    rw [hint, hs, if_neg Bool.false_ne_true]
  | true =>
    have hle := BitVec.msb_eq_true_iff_two_mul_ge.mp hs
    refine Or.inr ⟨rfl, by omega, ?_⟩
    rw [hint, hs, if_pos rfl, hpow, Nat.cast_mul]
    rfl

/-- A sum is right unless both numbers have the sign that it has not. -/
theorem fits_add_iff (hw : 0 < w) (a b : BitVec w) (c : Bool) :
    Fits w (a.toInt + b.toInt + c.toNat) ↔ ¬ (a.msb = b.msb ∧ (addCarry a b c).msb ≠ a.msb) := by
  have hsum := toNat_addCarry a b c
  have hc := Bool.toNat_le c
  have hcarry := Bool.toNat_le (carryOut a b c)
  have hpow := two_pow_eq hw
  unfold Fits
  rcases sign_cases hw a with ⟨ha, hla, hia⟩ | ⟨ha, hla, hia⟩ <;>
  rcases sign_cases hw b with ⟨hb, hlb, hib⟩ | ⟨hb, hlb, hib⟩ <;>
  rcases sign_cases hw (addCarry a b c) with ⟨hr, hlr, -⟩ | ⟨hr, hlr, -⟩ <;>
  rw [ha, hb, hr, hia, hib] <;>
  rcases Nat.le_one_iff_eq_zero_or_eq_one.mp hcarry with hz | hz <;>
  rw [hz] at hsum <;>
  simp only [not_true, not_false_iff, false_and, true_and, and_false, reduceCtorEq, ne_eq, iff_true,
    iff_false] <;>
  omega

/-- A difference is right unless the first number has the sign of neither the second nor the
result. -/
theorem fits_sub_iff (hw : 0 < w) (a b : BitVec w) (c : Bool) :
    Fits w (a.toInt - b.toInt - c.toNat) ↔ ¬ (a.msb ≠ b.msb ∧ (subBorrow a b c).msb ≠ a.msb) := by
  have hdiff := toNat_subBorrow a b c
  have hc := Bool.toNat_le c
  have hborrow := Bool.toNat_le (borrowOut a b c)
  have hpow := two_pow_eq hw
  unfold Fits
  rcases sign_cases hw a with ⟨ha, hla, hia⟩ | ⟨ha, hla, hia⟩ <;>
  rcases sign_cases hw b with ⟨hb, hlb, hib⟩ | ⟨hb, hlb, hib⟩ <;>
  rcases sign_cases hw (subBorrow a b c) with ⟨hr, hlr, -⟩ | ⟨hr, hlr, -⟩ <;>
  rw [ha, hb, hr, hia, hib] <;>
  rcases Nat.le_one_iff_eq_zero_or_eq_one.mp hborrow with hz | hz <;>
  rw [hz] at hdiff <;>
  simp only [not_true, not_false_iff, false_and, true_and, and_false, reduceCtorEq, ne_eq, iff_true,
    iff_false] <;>
  omega

theorem addOverflow_eq (hw : 0 < w) (a b : BitVec w) (c : Bool) :
    addOverflow a b c = (a.msb == b.msb && (addCarry a b c).msb != a.msb) := by
  rw [Bool.eq_iff_iff, addOverflow, decide_eq_true_iff, fits_add_iff hw]
  simp

theorem subOverflow_eq (hw : 0 < w) (a b : BitVec w) (c : Bool) :
    subOverflow a b c = (a.msb != b.msb && (subBorrow a b c).msb != a.msb) := by
  rw [Bool.eq_iff_iff, subOverflow, decide_eq_true_iff, fits_sub_iff hw]
  simp

/-! ## Several words -/

def natOf (ds : List (BitVec w)) : Nat := Nat.ofDigits (2 ^ w) (ds.map BitVec.toNat)

def intOf (ds : List (BitVec w)) : Int := (BitVec.ofNat (w * ds.length) (natOf ds)).toInt

section Digits
variable (ds : List (BitVec w)) (d : BitVec w)

theorem natOf_concat : natOf (ds ++ [d]) = natOf ds + 2 ^ (w * ds.length) * d.toNat := by
  rw [natOf, natOf, map_append, Nat.ofDigits_append, length_map, ← Nat.pow_mul]
  rw [map_singleton, Nat.ofDigits_singleton]

theorem natOf_lt : natOf ds < 2 ^ (w * ds.length) := by
  induction ds using reverseRecOn with
  | nil => exact Nat.one_pos
  | append_singleton ds d ih =>
    have hd := d.isLt
    rw [natOf_concat, length_append, length_singleton, Nat.mul_add, Nat.pow_add, Nat.mul_one]
    calc natOf ds + 2 ^ (w * ds.length) * d.toNat
        < 2 ^ (w * ds.length) + 2 ^ (w * ds.length) * d.toNat := by omega
      _ = 2 ^ (w * ds.length) * (d.toNat + 1) := by ring
      _ ≤ 2 ^ (w * ds.length) * 2 ^ w := Nat.mul_le_mul_left _ hd

theorem intOf_concat (hw : 0 < w) : intOf (ds ++ [d]) = d.toInt * (2 ^ (w * ds.length) : Nat) + natOf ds := by
  have hlow := natOf_lt ds
  have hlt := natOf_lt (ds ++ [d])
  have hlen : w * (ds ++ [d]).length = w + w * ds.length := by
    rw [length_append, length_singleton]
    ring
  rw [intOf, BitVec.toInt_eq_toNat_cond, BitVec.toNat_ofNat, Nat.mod_eq_of_lt hlt, natOf_concat,
    hlen, Nat.pow_add, BitVec.toInt_eq_toNat_cond]
  generalize hk : 2 ^ (w * ds.length) = k at *
  have hiff : 2 * (natOf ds + k * d.toNat) < 2 ^ w * k ↔ 2 * d.toNat < 2 ^ w := by
    rw [two_pow_eq hw, Nat.mul_assoc]
    have : natOf ds + k * d.toNat < 2 ^ (w - 1) * k ↔ d.toNat < 2 ^ (w - 1) := by
      constructor
      · intro h
        by_contra hge
        have := Nat.mul_le_mul_left k (Nat.le_of_not_lt hge)
        rw [Nat.mul_comm k (2 ^ (w - 1))] at this
        omega
      · intro h
        have := Nat.mul_le_mul_left k h
        rw [Nat.mul_comm k (2 ^ (w - 1)), Nat.mul_succ] at this
        omega
    omega
  split
  · rw [if_pos (hiff.mp ‹_›)]
    push_cast
    ring
  · rw [if_neg (mt hiff.mpr ‹_›)]
    push_cast
    ring

theorem fits_concat (hw : 0 < w) (n : Nat) {z : Int} {r : Nat} (hr : r < 2 ^ (w * n)) :
    Fits (w * (n + 1)) (z * (2 ^ (w * n) : Nat) + r) ↔ Fits w z := by
  have hexp : w * (n + 1) - 1 = (w - 1) + w * n := by
    rw [Nat.mul_succ]
    omega
  unfold Fits
  rw [hexp, Nat.pow_add]
  generalize 2 ^ (w * n) = k at *
  generalize 2 ^ (w - 1) = half
  push_cast
  constructor
  · rintro ⟨hlow, hhigh⟩
    constructor
    · by_contra hlt
      have : (z + 1) * k ≤ -half * k := mul_le_mul_of_nonneg_right (by omega) (Int.natCast_nonneg k)
      linarith
    · by_contra hge
      have : (half : Int) * k ≤ z * k := mul_le_mul_of_nonneg_right (by omega) (Int.natCast_nonneg k)
      linarith
  · rintro ⟨hlow, hhigh⟩
    constructor
    · have : -(half : Int) * k ≤ z * k := mul_le_mul_of_nonneg_right hlow (Int.natCast_nonneg k)
      linarith
    · have : (z + 1) * k ≤ half * k := mul_le_mul_of_nonneg_right hhigh (Int.natCast_nonneg k)
      linarith

end Digits

/-! ## Sums -/

structure Sums (xs ys rs : List (BitVec w)) (c : Bool) : Prop where
  length_left : xs.length = rs.length
  length_right : ys.length = rs.length
  total : natOf rs + 2 ^ (w * rs.length) * c.toNat = natOf xs + natOf ys

namespace Sums

theorem nil : Sums ([] : List (BitVec w)) [] [] false := ⟨rfl, rfl, rfl⟩

variable {xs ys rs : List (BitVec w)} {c : Bool}

theorem concat (h : Sums xs ys rs c) (x y : BitVec w) :
    Sums (xs ++ [x]) (ys ++ [y]) (rs ++ [addCarry x y c]) (carryOut x y c) := by
  refine ⟨by simp [h.length_left], by simp [h.length_right], ?_⟩
  have hdigit := toNat_addCarry x y c
  have htotal := h.total
  rw [natOf_concat, natOf_concat, natOf_concat, h.length_left, h.length_right, length_append,
    length_singleton, Nat.mul_succ, Nat.pow_add]
  generalize 2 ^ (w * rs.length) = k at *
  calc natOf rs + k * (addCarry x y c).toNat + k * 2 ^ w * (carryOut x y c).toNat
      = natOf rs + k * ((addCarry x y c).toNat + 2 ^ w * (carryOut x y c).toNat) := by ring
    _ = natOf rs + k * (x.toNat + y.toNat + c.toNat) := by rw [hdigit]
    _ = natOf rs + k * c.toNat + k * x.toNat + k * y.toNat := by ring
    _ = natOf xs + k * x.toNat + (natOf ys + k * y.toNat) := by rw [htotal]; ring

theorem natOf_eq (h : Sums xs ys rs c) :
    natOf rs = (natOf xs + natOf ys) % 2 ^ (w * rs.length) ∧
      c = decide (2 ^ (w * rs.length) ≤ natOf xs + natOf ys) := by
  have hlt := natOf_lt rs
  have htotal := h.total
  rw [← htotal, Nat.add_mul_mod_self_left, Nat.mod_eq_of_lt hlt]
  refine ⟨rfl, ?_⟩
  cases c with
  | false => exact (decide_eq_false (by simpa using hlt)).symm
  | true => exact (decide_eq_true (by simp)).symm

theorem fits_iff (h : Sums xs ys rs c) (hw : 0 < w) (x y : BitVec w) :
    Fits (w * (rs.length + 1)) (intOf (xs ++ [x]) + intOf (ys ++ [y])) ↔
      Fits w (x.toInt + y.toInt + c.toNat) := by
  rw [← fits_concat hw rs.length (natOf_lt rs)]
  have htotal : (natOf rs : Int) + (2 ^ (w * rs.length) : Nat) * c.toNat = natOf xs + natOf ys :=
    mod_cast h.total
  rw [intOf_concat _ _ hw, intOf_concat _ _ hw, h.length_left, h.length_right]
  generalize ((2 ^ (w * rs.length) : Nat) : Int) = k at *
  have : x.toInt * k + natOf xs + (y.toInt * k + natOf ys) =
      (x.toInt + y.toInt + c.toNat) * k + natOf rs := by
    linear_combination -htotal
  rw [this]

end Sums

/-! ## Differences -/

structure Differs (xs ys rs : List (BitVec w)) (c : Bool) : Prop where
  length_left : xs.length = rs.length
  length_right : ys.length = rs.length
  total : natOf rs + natOf ys = natOf xs + 2 ^ (w * rs.length) * c.toNat

namespace Differs

theorem nil : Differs ([] : List (BitVec w)) [] [] false := ⟨rfl, rfl, rfl⟩

variable {xs ys rs : List (BitVec w)} {c : Bool}

theorem concat (h : Differs xs ys rs c) (x y : BitVec w) :
    Differs (xs ++ [x]) (ys ++ [y]) (rs ++ [subBorrow x y c]) (borrowOut x y c) := by
  refine ⟨by simp [h.length_left], by simp [h.length_right], ?_⟩
  have hdigit := toNat_subBorrow x y c
  have htotal := h.total
  rw [natOf_concat, natOf_concat, natOf_concat, h.length_left, h.length_right, length_append,
    length_singleton, Nat.mul_succ, Nat.pow_add]
  generalize 2 ^ (w * rs.length) = k at *
  have hscaled := congrArg (k * ·) hdigit
  simp only [Nat.mul_add] at hscaled
  rw [Nat.mul_assoc]
  omega

theorem of_concat {x y r : BitVec w} (h : Differs (xs ++ [x]) (ys ++ [y]) (rs ++ [r]) c) :
    Differs xs ys rs (decide (natOf xs < natOf ys)) ∧
      r = subBorrow x y (decide (natOf xs < natOf ys)) := by
  have hxs : xs.length = rs.length := by simpa using h.length_left
  have hys : ys.length = rs.length := by simpa using h.length_right
  have htotal := h.total
  have hx := natOf_lt xs
  have hy := natOf_lt ys
  have hr := natOf_lt rs
  rw [natOf_concat, natOf_concat, natOf_concat, hxs, hys, length_append, length_singleton,
    Nat.mul_succ, Nat.pow_add, Nat.mul_assoc] at htotal
  rw [hxs] at hx
  rw [hys] at hy
  generalize hk : 2 ^ (w * rs.length) = k at *
  -- the top digits differ by a borrow from the low ones, or not at all
  have hsplit : natOf rs + natOf ys = natOf xs + k * (decide (natOf xs < natOf ys)).toNat ∧
      r.toNat + y.toNat + (decide (natOf xs < natOf ys)).toNat = x.toNat + 2 ^ w * c.toNat := by
    have htops : natOf rs + natOf ys + k * (r.toNat + y.toNat) =
        natOf xs + k * (x.toNat + 2 ^ w * c.toNat) := by
      rw [Nat.mul_add, Nat.mul_add]
      omega
    generalize r.toNat + y.toNat = top at *
    generalize x.toNat + 2 ^ w * c.toNat = top' at *
    rcases Nat.lt_trichotomy top top' with hlt | heq | hgt
    · obtain ⟨d, rfl⟩ : ∃ d, top' = top + 1 + d := ⟨top' - top - 1, by omega⟩
      rw [Nat.mul_add, Nat.mul_add, Nat.mul_one] at htops
      have hd : d = 0 := by
        by_contra hne
        have := Nat.le_mul_of_pos_right k (Nat.pos_of_ne_zero hne)
        omega
      subst hd
      rw [decide_eq_true (by omega), Bool.toNat_true]
      omega
    · subst heq
      rw [decide_eq_false (by omega), Bool.toNat_false]
      omega
    · have := Nat.mul_le_mul_left k hgt
      rw [Nat.mul_succ] at this
      omega
  refine ⟨⟨hxs, hys, by rw [hk]; exact hsplit.1⟩, BitVec.eq_of_toNat_eq ?_⟩
  have hdiff := toNat_subBorrow x y (decide (natOf xs < natOf ys))
  have hc := Bool.toNat_le c
  have hb := Bool.toNat_le (borrowOut x y (decide (natOf xs < natOf ys)))
  obtain ⟨-, htop⟩ := hsplit
  rcases Nat.le_one_iff_eq_zero_or_eq_one.mp hc with hz | hz <;>
  rcases Nat.le_one_iff_eq_zero_or_eq_one.mp hb with hz' | hz' <;>
  rw [hz] at htop <;> rw [hz'] at hdiff <;> omega

theorem natOf_eq (h : Differs xs ys rs c) :
    (natOf rs : Int) = (natOf xs - natOf ys) % (2 ^ (w * rs.length) : Nat) ∧
      c = decide (natOf xs < natOf ys) := by
  have hlt := natOf_lt rs
  have htotal := h.total
  have hx := natOf_lt xs
  generalize 2 ^ (w * rs.length) = k at *
  have heq : (natOf xs : Int) - natOf ys = natOf rs + k * (-(c.toNat : Int)) := by
    have : (natOf rs : Int) + natOf ys = natOf xs + k * c.toNat := mod_cast htotal
    linear_combination -this
  refine ⟨?_, ?_⟩
  · rw [heq, Int.add_mul_emod_self_left, Int.emod_eq_of_lt (Int.natCast_nonneg _) (by omega)]
  cases c with
  | false =>
    rw [Bool.toNat_false] at htotal
    exact (decide_eq_false (by omega)).symm
  | true =>
    rw [Bool.toNat_true] at htotal
    exact (decide_eq_true (by omega)).symm

theorem of_natOf_eq (hx : xs.length = rs.length) (hy : ys.length = rs.length)
    (hr : (natOf rs : Int) = (natOf xs - natOf ys) % (2 ^ (w * rs.length) : Nat)) :
    Differs xs ys rs (decide (natOf xs < natOf ys)) := by
  refine ⟨hx, hy, ?_⟩
  have hxlt := natOf_lt xs
  have hylt := natOf_lt ys
  rw [hx] at hxlt
  rw [hy] at hylt
  generalize 2 ^ (w * rs.length) = k at *
  by_cases hlt : natOf xs < natOf ys
  · rw [decide_eq_true hlt, Bool.toNat_true]
    rw [← Int.add_emod_right, Int.emod_eq_of_lt (by omega) (by omega)] at hr
    omega
  · rw [decide_eq_false hlt, Bool.toNat_false]
    rw [Int.emod_eq_of_lt (by omega) (by omega)] at hr
    omega

theorem fits_iff (h : Differs xs ys rs c) (hw : 0 < w) (x y : BitVec w) :
    Fits (w * (rs.length + 1)) (intOf (xs ++ [x]) - intOf (ys ++ [y])) ↔
      Fits w (x.toInt - y.toInt - c.toNat) := by
  rw [← fits_concat hw rs.length (natOf_lt rs)]
  have htotal : (natOf rs : Int) + natOf ys = natOf xs + (2 ^ (w * rs.length) : Nat) * c.toNat :=
    mod_cast h.total
  rw [intOf_concat _ _ hw, intOf_concat _ _ hw, h.length_left, h.length_right]
  generalize ((2 ^ (w * rs.length) : Nat) : Int) = k at *
  have : x.toInt * k + natOf xs - (y.toInt * k + natOf ys) =
      (x.toInt - y.toInt - c.toNat) * k + natOf rs := by
    linear_combination -htotal
  rw [this]

end Differs

end IshGo.Lib
