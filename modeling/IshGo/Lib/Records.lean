/-
# `IshGo.Lib.Records` — records packed into a buffer and read back

Two halves of one format.  The writer takes records in order while they fit (`fitting`), and
stops at the first that does not.  The reader knows of each record where it ends (`Reads`), and
goes from one to the next until there is none.
-/
import Mathlib.Algebra.BigOperators.Group.List.Defs
import Mathlib.Algebra.GroupWithZero.Nat
import Mathlib.Algebra.Order.Group.Nat
import Mathlib.Data.List.Forall2

namespace IshGo.Lib

open List

/-! ## Filling a buffer -/

section Fitting
variable {α β : Type} {size : α → Nat}

/-- The records that fit into `room`, up to the first that does not. -/
def fitting (size : α → Nat) : Nat → List α → List α
  | _, [] => []
  | room, a :: as => if size a ≤ room then a :: fitting size (room - size a) as else []

theorem fitting_cons_of_le {room : Nat} {a : α} {as : List α} (h : size a ≤ room) :
    fitting size room (a :: as) = a :: fitting size (room - size a) as := if_pos h

theorem fitting_cons_of_lt {room : Nat} {a : α} {as : List α} (h : room < size a) :
    fitting size room (a :: as) = [] := if_neg (Nat.not_le.mpr h)

theorem fitting_initial (as : List α) : ∀ room, fitting size room as <+: as := by
  induction as with
  | nil => exact fun _ => prefix_refl []
  | cons a as ih =>
    intro room
    rcases Nat.lt_or_ge room (size a) with h | h
    · rw [fitting_cons_of_lt h]
      exact nil_prefix
    · rw [fitting_cons_of_le h]
      exact cons_prefix_cons.mpr ⟨rfl, ih _⟩

theorem sum_fitting_le (as : List α) : ∀ room, ((fitting size room as).map size).sum ≤ room := by
  induction as with
  | nil => exact Nat.zero_le
  | cons a as ih =>
    intro room
    rcases Nat.lt_or_ge room (size a) with h | h
    · rw [fitting_cons_of_lt h]
      exact Nat.zero_le room
    · rw [fitting_cons_of_le h, map_cons, sum_cons]
      have hrest := ih (room - size a)
      omega

/-- No longer one of the first records fits. -/
theorem fitting_longest {before : List α} : ∀ {as : List α} {room : Nat}, before <+: as →
    (before.map size).sum ≤ room → before <+: fitting size room as := by
  induction before with
  | nil => exact fun _ _ => nil_prefix
  | cons a before ih =>
    rintro _ room ⟨after, rfl⟩ hsum
    rw [map_cons, sum_cons] at hsum
    rw [cons_append, fitting_cons_of_le (by omega)]
    exact cons_prefix_cons.mpr ⟨rfl, ih (prefix_append before after) (by omega)⟩

/-- Everything fits exactly if the sizes together do. -/
theorem fitting_eq_self_iff (as : List α) : ∀ room, fitting size room as = as ↔ (as.map size).sum ≤ room := by
  induction as with
  | nil => exact fun room => iff_of_true rfl (Nat.zero_le room)
  | cons a as ih =>
    intro room
    rw [map_cons, sum_cons]
    rcases Nat.lt_or_ge room (size a) with h | h
    · rw [fitting_cons_of_lt h]
      exact iff_of_false (cons_ne_nil a as).symm (by omega)
    · rw [fitting_cons_of_le h, cons.injEq, ih, and_iff_right rfl]
      omega

theorem fitting_map (f : β → α) (bs : List β) :
    ∀ room, fitting size room (bs.map f) = (fitting (size ∘ f) room bs).map f := by
  induction bs with
  | nil => exact fun _ => rfl
  | cons b bs ih =>
    intro room
    rw [map_cons]
    rcases Nat.lt_or_ge room (size (f b)) with h | h
    · rw [fitting_cons_of_lt h, @fitting_cons_of_lt _ (size ∘ f) _ _ _ h]
      rfl
    · rw [fitting_cons_of_le h, @fitting_cons_of_le _ (size ∘ f) _ _ _ h, ih]
      rfl

end Fitting

/-! ## Reading records -/

section Reading
variable {α β : Type} {read : List β → Option (α × List β)}

/-- The text `e` is read as `a`, whatever comes after it. -/
def Reads (read : List β → Option (α × List β)) (e : List β) (a : α) : Prop :=
  ∀ rest, read (e ++ rest) = some (a, rest)

/-- Records are read until there is none, at most `n` of them. -/
def readAll (read : List β → Option (α × List β)) : Nat → List β → List α
  | 0, _ => []
  | n + 1, text =>
    match read text with
    | none => []
    | some (a, rest) => a :: readAll read n rest

theorem readAll_flatten (hend : read [] = none) {es : List (List β)} {as : List α}
    (h : List.Forall₂ (Reads read) es as) : ∀ {n : Nat}, es.length ≤ n → readAll read n es.flatten = as := by
  induction h with
  | nil =>
    intro n _
    cases n with
    | zero => rfl
    | succ n => rw [flatten_nil, readAll, hend]
  | @cons e a es as he _ ih =>
    intro n hn
    cases n with
    | zero => exact absurd hn (Nat.not_succ_le_zero _)
    | succ n =>
      rw [flatten_cons, readAll, he]
      exact congrArg (a :: ·) (ih (Nat.le_of_succ_le_succ hn))

end Reading

end IshGo.Lib
