/-
# `IshGo.Lib.Turns` — loops as turns

A loop is given by its turn, a partial function on what the loop works on: `none` where the loop
ends.  `Ends` says of a loop that it comes to its end by itself within a number of turns, and what
it gives.  That is what a function with fuel has to be shown to do: a result that only says that
the fuel was used up is not the loop's.
-/

namespace IshGo.Lib

variable {α β : Type} {turn : α → Option α}

/-- At most `n` turns. -/
def runTurns (turn : α → Option α) : Nat → α → α
  | 0, a => a
  | n + 1, a =>
    match turn a with
    | none => a
    | some b => runTurns turn n b

/-- From `a` the loop ends within `n` turns, and it gives `r`. -/
def Ends (turn : α → Option α) (exit : α → β) (n : Nat) (a : α) (r : β) : Prop :=
  turn (runTurns turn n a) = none ∧ r = exit (runTurns turn n a)

theorem runTurns_none {a : α} (h : turn a = none) (n : Nat) : runTurns turn n a = a := by
  cases n with
  | zero => rfl
  | succ n => rw [runTurns, h]

theorem runTurns_some {a b : α} (h : turn a = some b) (n : Nat) :
    runTurns turn (n + 1) a = runTurns turn n b := by
  rw [runTurns, h]

/-- The rule for a loop with a measure: what `P` says is kept by every turn, and `μ` gets smaller
with it. -/
theorem runTurns_ends {P : α → Prop} {μ : α → Nat}
    (h : ∀ a b, P a → turn a = some b → P b ∧ μ b < μ a) (n : Nat) :
    ∀ {a : α}, P a → μ a ≤ n → turn (runTurns turn n a) = none := by
  induction n with
  | zero =>
    intro a ha hle
    cases hturn : turn a with
    | none => exact hturn
    | some b => exact absurd (h a b ha hturn).2 (by omega)
  | succ n ih =>
    intro a ha hle
    cases hturn : turn a with
    | none => rwa [runTurns_none hturn]
    | some b =>
      obtain ⟨hb, hlt⟩ := h a b ha hturn
      rw [runTurns_some hturn]
      exact ih hb (by omega)

end IshGo.Lib
