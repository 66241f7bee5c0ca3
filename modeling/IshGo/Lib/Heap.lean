/-
# `IshGo.Lib.Heap` — objects with numbers

A pointer of the source becomes the number of a cell.  Two records that hold one number
share the cell, and a write through one of them is seen through the other.  Numbers are
given out in order and never again, so a cell is in use when its number is below `next`.
-/
import Mathlib.Data.List.Basic
import Mathlib.Logic.Function.Basic

namespace IshGo.Lib

open List Function

variable {i : Nat}

structure Heap (α : Type) where
  cell : Nat → α
  next : Nat

namespace Heap

variable {α β : Type}

/-- Only the cell `0` is in use. -/
def single (a : α) : Heap α := { cell := fun _ => a, next := 1 }

def set (h : Heap α) (i : Nat) (a : α) : Heap α := { h with cell := update h.cell i a }

def alloc (h : Heap α) (a : α) : Heap α :=
  { cell := update h.cell h.next a, next := h.next + 1 }

@[simp] theorem next_set (h : Heap α) (i : Nat) (a : α) : (h.set i a).next = h.next := rfl

@[simp] theorem next_alloc (h : Heap α) (a : α) : (h.alloc a).next = h.next + 1 := rfl

@[simp] theorem cell_set (h : Heap α) (i : Nat) (a : α) : (h.set i a).cell i = a := by
  simp only [set, update_self]

theorem cell_set_ne (h : Heap α) {j : Nat} (a : α) (hne : j ≠ i) : (h.set i a).cell j = h.cell j := by
  simp only [set, update_of_ne hne]

@[simp] theorem cell_alloc (h : Heap α) (a : α) : (h.alloc a).cell h.next = a := by
  simp only [alloc, update_self]

theorem cell_alloc_lt (h : Heap α) (a : α) (hi : i < h.next) : (h.alloc a).cell i = h.cell i := by
  simp only [alloc, update_of_ne (Nat.ne_of_lt hi)]

@[simp] theorem set_cell (h : Heap α) (i : Nat) : h.set i (h.cell i) = h := by
  rw [set, update_eq_self]

@[simp] theorem set_set (h : Heap α) (i : Nat) (a b : α) : (h.set i a).set i b = h.set i b := by
  simp only [set, update_idem]

theorem alloc_set (h : Heap α) (a b : α) (hi : i < h.next) : (h.set i a).alloc b = (h.alloc b).set i a := by
  simp only [set, alloc, update_comm (Nat.ne_of_lt hi)]

theorem map_cell_set (f : α → β) (h : Heap α) {a : α} (ha : f a = f (h.cell i)) (j : Nat) :
    f ((h.set i a).cell j) = f (h.cell j) := by
  by_cases hj : j = i
  · rw [hj, cell_set, ha]
  · rw [cell_set_ne h a hj]

theorem forall_alloc {P : α → Prop} (h : Heap α) {a : α} (ha : P a)
    (hold : ∀ i < h.next, P (h.cell i)) : ∀ i < (h.alloc a).next, P ((h.alloc a).cell i) := by
  intro i hi
  rcases Nat.lt_succ_iff_lt_or_eq.mp hi with hlt | rfl
  · rw [cell_alloc_lt h a hlt]
    exact hold i hlt
  · rw [cell_alloc]
    exact ha

theorem forall_set {P : α → Prop} (h : Heap α) {a : α} (j : Nat) (ha : P a)
    (hold : ∀ i < h.next, P (h.cell i)) : ∀ i < (h.set j a).next, P ((h.set j a).cell i) := by
  intro i hi
  by_cases hij : i = j
  · rw [hij, cell_set]
    exact ha
  · rw [cell_set_ne h a hij]
    exact hold i hi

/-! ## What all cells contribute -/

def gather (f : α → List β) (h : Heap α) : List β := (range h.next).flatMap fun i => f (h.cell i)

theorem gather_alloc (f : α → List β) (h : Heap α) (a : α) : (h.alloc a).gather f = h.gather f ++ f a := by
  have hold : ∀ i ∈ range h.next, f ((h.alloc a).cell i) = f (h.cell i) := by
    intro i hi
    rw [cell_alloc_lt h a (mem_range.mp hi)]
  rw [gather, next_alloc, range_succ, flatMap_append, flatMap_congr hold, flatMap_singleton, cell_alloc]
  rfl

theorem gather_filter (f : α → List β) (h : Heap α) {keep : Nat → Bool}
    (hkeep : ∀ i, keep i = false → f (h.cell i) = []) :
    h.gather f = ((range h.next).filter keep).flatMap fun i => f (h.cell i) := by
  rw [gather]
  induction range h.next with
  | nil => rfl
  | cons i l ih =>
    cases hk : keep i with
    | true => rw [filter_cons_of_pos hk, flatMap_cons, flatMap_cons, ih]
    | false =>
      rw [filter_cons_of_neg (by rw [hk]; exact Bool.false_ne_true), flatMap_cons,
        hkeep i hk, ih]
      rfl

/-- One cell first, and the others the same whatever is in it. -/
theorem gather_set_perm (f : α → List β) (h : Heap α) (hi : i < h.next) :
    ∃ rest, ∀ a, ((h.set i a).gather f).Perm (f a ++ rest) := by
  obtain ⟨front, back, hsplit⟩ := append_of_mem (mem_range.mpr hi)
  have hnodup : (front ++ i :: back).Nodup := hsplit ▸ nodup_range
  have hfront : ∀ j ∈ front, j ≠ i := fun j hj hji =>
    (nodup_append.mp hnodup).2.2 j hj i mem_cons_self hji
  have hback : ∀ j ∈ back, j ≠ i := fun j hj hji =>
    (nodup_cons.mp (nodup_append.mp hnodup).2.1).1 (hji ▸ hj)
  refine ⟨front.flatMap (fun j => f (h.cell j)) ++ back.flatMap (fun j => f (h.cell j)), fun a => ?_⟩
  have same : ∀ l : List Nat, (∀ j ∈ l, j ≠ i) →
      l.flatMap (fun j => f ((h.set i a).cell j)) = l.flatMap fun j => f (h.cell j) :=
    fun l hl => flatMap_congr fun j hj => by rw [cell_set_ne h a (hl j hj)]
  rw [gather, next_set, hsplit, flatMap_append, flatMap_cons, same front hfront, same back hback, cell_set]
  exact perm_append_comm_assoc _ _ _

theorem gather_perm (f : α → List β) (h : Heap α) (hi : i < h.next) :
    ∃ rest, (h.gather f).Perm (f (h.cell i) ++ rest) ∧
      ∀ a, ((h.set i a).gather f).Perm (f a ++ rest) := by
  obtain ⟨rest, hrest⟩ := gather_set_perm f h hi
  have hself := hrest (h.cell i)
  rw [set_cell] at hself
  exact ⟨rest, hself, hrest⟩

end Heap

end IshGo.Lib
