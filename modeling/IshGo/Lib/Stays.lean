/-
# `IshGo.Lib.Stays` — what a computation may do to its state

For computations in `EStateM ε σ`, and a preorder `R` on states: `Stays R x` says
that `x` takes every state to a state above it, whether it returns or throws.
`R` is the author's choice: "the mappings are the same", "the log has only
grown", a conjunction of such.
-/
import Mathlib.Order.Defs.Unbundled

namespace IshGo.Lib

variable {ε σ α β : Type}

/-- The state a computation ends in, by returning or by throwing. -/
def after (x : EStateM ε σ α) (s : σ) : σ :=
  match x s with
  | .ok _ s' => s'
  | .error _ s' => s'

theorem after_ok {x : EStateM ε σ α} {s s' : σ} {a : α} (h : x s = .ok a s') : after x s = s' := by
  rw [after, h]

theorem after_error {x : EStateM ε σ α} {s s' : σ} {e : ε} (h : x s = .error e s') : after x s = s' := by
  rw [after, h]

theorem bind_of_ok {x : EStateM ε σ α} {f : α → EStateM ε σ β} {s s' : σ} {a : α}
    (h : x s = .ok a s') : (x >>= f) s = f a s' := by
  show EStateM.bind x f s = _
  rw [EStateM.bind, h]

theorem bind_of_error {x : EStateM ε σ α} {f : α → EStateM ε σ β} {s s' : σ} {e : ε}
    (h : x s = .error e s') : (x >>= f) s = .error e s' := by
  show EStateM.bind x f s = _
  rw [EStateM.bind, h]

theorem bind_ok {x : EStateM ε σ α} {f : α → EStateM ε σ β} {s s' : σ} {b : β}
    (h : (x >>= f) s = .ok b s') : ∃ a t, x s = .ok a t ∧ f a t = .ok b s' := by
  cases hx : x s with
  | ok a t =>
    rw [bind_of_ok hx] at h
    exact ⟨a, t, rfl, h⟩
  | error e t =>
    rw [bind_of_error hx] at h
    cases h

def returned (x : EStateM ε σ α) (s : σ) : Option α :=
  match x s with
  | .ok a _ => some a
  | .error _ _ => none

theorem ok_of_returned {x : EStateM ε σ α} {s : σ} {a : α} (h : returned x s = some a) :
    x s = .ok a (after x s) := by
  unfold returned at h
  unfold after
  cases hx : x s with
  | ok b s' =>
    rw [hx] at h
    cases h
    rfl
  | error e s' =>
    rw [hx] at h
    cases h

theorem get_bind (f : σ → EStateM ε σ β) (s : σ) : (get >>= f) s = f s s := rfl

theorem after_get_bind (f : σ → EStateM ε σ β) (s : σ) : after (get >>= f) s = after (f s) s := rfl

theorem modify_bind (g : σ → σ) (f : PUnit → EStateM ε σ β) (s : σ) :
    (modify g >>= f) s = f ⟨⟩ (g s) := rfl

theorem after_bind_of_ok {x : EStateM ε σ α} {f : α → EStateM ε σ β} {s s' : σ} {a : α}
    (h : x s = .ok a s') : after (x >>= f) s = after (f a) s' := by
  rw [after, bind_of_ok h, after]

theorem after_bind_of_error {x : EStateM ε σ α} {f : α → EStateM ε σ β} {s s' : σ} {e : ε}
    (h : x s = .error e s') : after (x >>= f) s = s' := after_error (bind_of_error h)

class Stays (R : σ → σ → Prop) (x : EStateM ε σ α) : Prop where
  stays : ∀ s, R s (after x s)

namespace Stays

variable {R : σ → σ → Prop}

theorem of_ok {x : EStateM ε σ α} [Stays R x] {s s' : σ} {a : α} (h : x s = .ok a s') : R s s' :=
  after_ok h ▸ Stays.stays (R := R) (x := x) s

theorem modify {f : σ → σ} (h : ∀ s, R s (f s)) : Stays R (modify f : EStateM ε σ Unit) := ⟨h⟩

instance pure [Std.Refl R] (a : α) : Stays R (pure a : EStateM ε σ α) := ⟨Std.Refl.refl⟩

instance throw [Std.Refl R] (e : ε) : Stays R (throw e : EStateM ε σ α) := ⟨Std.Refl.refl⟩

instance get [Std.Refl R] : Stays R (get : EStateM ε σ σ) := ⟨Std.Refl.refl⟩

instance bind [IsTrans σ R] (x : EStateM ε σ α) (f : α → EStateM ε σ β) [Stays R x]
    [∀ a, Stays R (f a)] : Stays R (x >>= f) where
  stays s := by
    cases hx : x s with
    | ok a s' =>
      have hs : R s s' := of_ok hx
      have hf : R s' (after (f a) s') := Stays.stays s'
      rw [after_bind_of_ok hx]
      exact IsTrans.trans s s' _ hs hf
    | error e s' =>
      rw [after_bind_of_error hx, ← after_error hx]
      exact Stays.stays s

theorem bind_of [IsTrans σ R] {x : EStateM ε σ α} {f : α → EStateM ε σ β} [Stays R x]
    (h : ∀ a, Stays R (f a)) : Stays R (x >>= f) := inferInstance

instance ite (c : Prop) [Decidable c] (x y : EStateM ε σ α) [hx : Stays R x] [hy : Stays R y] :
    Stays R (if c then x else y) := by
  split
  · exact hx
  · exact hy

instance map [IsTrans σ R] [Std.Refl R] (f : α → β) (x : EStateM ε σ α) [Stays R x] : Stays R (f <$> x) := by
  rw [map_eq_pure_bind]
  infer_instance

instance elim (o : Option α) (x : EStateM ε σ β) (f : α → EStateM ε σ β) [hx : Stays R x]
    [hf : ∀ a, Stays R (f a)] : Stays R (o.elim x f) := by
  cases o with
  | none => exact hx
  | some a => exact hf a

end Stays

end IshGo.Lib
