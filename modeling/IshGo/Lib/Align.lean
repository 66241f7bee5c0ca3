/-
# `IshGo.Lib.Align` — clearing the low bits of a machine word

Masking with `2^k - 1` is the remainder, and masking with its complement rounds down to a
multiple of `2^k`.  Both are stated on `toNat`, where the rest of an argument about
addresses is linear arithmetic.
-/
import Mathlib.Algebra.Group.Nat.Defs
import Mathlib.Data.Nat.Notation

namespace IshGo.Lib

variable {w : Nat}

theorem toNat_ofNat_of_lt {n : Nat} (h : n < 2 ^ w) : (BitVec.ofNat w n).toNat = n := by
  rw [BitVec.toNat_ofNat, Nat.mod_eq_of_lt h]

theorem toNat_and_mask (x : BitVec w) {k : Nat} (hk : k ≤ w) :
    (x &&& BitVec.ofNat w (2 ^ k - 1)).toNat = x.toNat % 2 ^ k := by
  have hmask : (BitVec.ofNat w (2 ^ k - 1)).toNat = 2 ^ k - 1 := by
    refine toNat_ofNat_of_lt ?_
    have hle : 2 ^ k ≤ 2 ^ w := Nat.pow_le_pow_right (by decide) hk
    have hpos : 0 < 2 ^ k := Nat.two_pow_pos k
    omega
  rw [BitVec.toNat_and, hmask, Nat.and_two_pow_sub_one_eq_mod]

theorem and_add_and_not (x m : BitVec w) : (x &&& m) + (x &&& ~~~m) = x := by
  have hdisjoint : (x &&& m) &&& (x &&& ~~~m) = 0#w := by
    refine BitVec.eq_of_getLsbD_eq fun i hi => ?_
    simp only [BitVec.getLsbD_and, BitVec.getLsbD_not, BitVec.getLsbD_zero]
    cases m.getLsbD i <;> simp
  rw [BitVec.add_eq_or_of_and_eq_zero _ _ hdisjoint]
  refine BitVec.eq_of_getLsbD_eq fun i hi => ?_
  simp only [BitVec.getLsbD_or, BitVec.getLsbD_and, BitVec.getLsbD_not]
  cases m.getLsbD i <;> simp [hi]

theorem toNat_and_not_mask (x : BitVec w) {k : Nat} (hk : k ≤ w) :
    (x &&& ~~~(BitVec.ofNat w (2 ^ k - 1))).toNat = x.toNat - x.toNat % 2 ^ k := by
  have hsum := congrArg BitVec.toNat (and_add_and_not x (BitVec.ofNat w (2 ^ k - 1)))
  have hlow := toNat_and_mask x hk
  have hle : (x &&& ~~~(BitVec.ofNat w (2 ^ k - 1))).toNat ≤ x.toNat := by
    rw [BitVec.toNat_and]
    exact Nat.and_le_left
  have hmod : x.toNat % 2 ^ k ≤ x.toNat := Nat.mod_le _ _
  rw [BitVec.toNat_add, hlow] at hsum
  have hx := x.isLt
  by_cases hwrap : x.toNat % 2 ^ k + (x &&& ~~~(BitVec.ofNat w (2 ^ k - 1))).toNat < 2 ^ w
  · rw [Nat.mod_eq_of_lt hwrap] at hsum
    omega
  · rw [Nat.mod_eq_sub_mod (Nat.not_lt.mp hwrap), Nat.mod_eq_of_lt (by omega)] at hsum
    omega

theorem toNat_and_not_page (x : BitVec 32) : (x &&& ~~~4095).toNat = x.toNat - x.toNat % 4096 :=
  @toNat_and_not_mask 32 x 12 (by decide)

end IshGo.Lib
