/-
# `IshGo.Lib.Commutes` — what a computation does not look at

For computations in `EStateM ε σ`, and a map `φ` on states: `Commutes φ x` says that `x`, started
in `φ s`, returns or throws the same as in `s`, in the image under `φ` of the state it reaches
there.  If `φ` changes one field, `x` neither looks at it nor overwrites it.
-/
import IshGo.Lib.Stays

namespace IshGo.Lib

variable {ε σ α β : Type}

def mapState (φ : σ → σ) : EStateM.Result ε σ α → EStateM.Result ε σ α
  | .ok a s => .ok a (φ s)
  | .error e s => .error e (φ s)

/-- The same is done in `φ s` as in `s`. -/
class Commutes (φ : σ → σ) (x : EStateM ε σ α) : Prop where
  commutes : ∀ s, x (φ s) = mapState φ (x s)

namespace Commutes

variable {φ : σ → σ}

theorem of_ok {x : EStateM ε σ α} [hx : Commutes φ x] {s s' : σ} {a : α} (h : x s = .ok a s') :
    x (φ s) = .ok a (φ s') := by
  rw [hx.commutes, h]
  rfl

theorem of_error {x : EStateM ε σ α} [hx : Commutes φ x] {s s' : σ} {e : ε} (h : x s = .error e s') :
    x (φ s) = .error e (φ s') := by
  rw [hx.commutes, h]
  rfl

instance pure (a : α) : Commutes φ (pure a : EStateM ε σ α) := ⟨fun _ => rfl⟩

instance bind (x : EStateM ε σ α) (f : α → EStateM ε σ β) [Commutes φ x]
    [hf : ∀ a, Commutes φ (f a)] : Commutes φ (x >>= f) where
  commutes s := by
    cases hx : x s with
    | ok a s' =>
      rw [bind_of_ok hx, bind_of_ok (of_ok hx)]
      exact (hf a).commutes s'
    | error e s' =>
      rw [bind_of_error hx, bind_of_error (of_error hx)]
      rfl

theorem get_bind {f : σ → EStateM ε σ β} (hsame : ∀ s, f (φ s) = f s) (hf : ∀ s, Commutes φ (f s)) :
    Commutes φ (get >>= f) where
  commutes s := by
    show f (φ s) (φ s) = mapState φ (f s s)
    rw [hsame s]
    exact (hf s).commutes s

instance ite (c : Prop) [Decidable c] (x y : EStateM ε σ α) [hx : Commutes φ x] [hy : Commutes φ y] :
    Commutes φ (if c then x else y) := by
  split
  · exact hx
  · exact hy

end Commutes

end IshGo.Lib
