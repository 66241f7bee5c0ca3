/-
# `IshGo.Lib.Ensures` — what holds when a computation has returned

For computations in `EStateM ε σ`: `Ensures x s Q` says that if `x`, begun in `s`, returns, its
result and its state satisfy `Q`.  Of a computation that throws it says nothing; what it may
have done until then is the business of `Stays`.
-/
import IshGo.Lib.Stays

namespace IshGo.Lib

variable {ε σ α β : Type}

def Ensures (x : EStateM ε σ α) (s : σ) (Q : α → σ → Prop) : Prop := ∀ a t, x s = .ok a t → Q a t

namespace Ensures

variable {x : EStateM ε σ α} {s : σ} {P Q : α → σ → Prop}

theorem mono (h : Ensures x s P) (hPQ : ∀ a t, P a t → Q a t) : Ensures x s Q :=
  fun a t hx => hPQ a t (h a t hx)

end Ensures

section Rules
variable {s : σ} {Q : α → σ → Prop} {Q' : β → σ → Prop}

@[simp] theorem ensures_bind {x : EStateM ε σ α} {f : α → EStateM ε σ β} :
    Ensures (x >>= f) s Q' ↔ Ensures x s fun a t => Ensures (f a) t Q' := by
  constructor
  · intro h a t hx b u hf
    exact h b u ((bind_of_ok hx).trans hf)
  · intro h b u hxf
    obtain ⟨a, t, hx, hf⟩ := bind_ok hxf
    exact h a t hx b u hf

@[simp] theorem ensures_pure {a : α} : Ensures (pure a : EStateM ε σ α) s Q ↔ Q a s := by
  constructor
  · intro h
    exact h a s rfl
  · intro h b t hb
    cases hb
    exact h

@[simp] theorem ensures_throw {e : ε} : Ensures (throw e : EStateM ε σ α) s Q ↔ True := by
  refine iff_true_intro fun a t h => ?_
  cases h

@[simp] theorem ensures_get {Q : σ → σ → Prop} : Ensures (get : EStateM ε σ σ) s Q ↔ Q s s :=
  ensures_pure

@[simp] theorem ensures_modify {g : σ → σ} {Q : PUnit → σ → Prop} :
    Ensures (modify g : EStateM ε σ PUnit) s Q ↔ Q ⟨⟩ (g s) := by
  constructor
  · intro h
    exact h ⟨⟩ (g s) rfl
  · intro h b t hb
    cases hb
    exact h

theorem ensures_ite {c : Prop} [Decidable c] {x y : EStateM ε σ α} :
    Ensures (if c then x else y) s Q ↔ (c → Ensures x s Q) ∧ (¬ c → Ensures y s Q) := by
  split
  · simp [*]
  · simp [*]

end Rules

/-! ## With `Stays`

What holds across a computation also when it throws: the first part is known by a `Stays`, the
rest where the first part has returned. -/

section After
variable {R : σ → σ → Prop} [IsTrans σ R] {x : EStateM ε σ α} {f : α → EStateM ε σ β} {s : σ}

theorem after_bind_of_ensures [Stays R x] (h : Ensures x s fun a t => R t (after (f a) t)) :
    R s (after (x >>= f) s) := by
  have hx : R s (after x s) := Stays.stays s
  cases hres : x s with
  | ok a t =>
    rw [after_ok hres] at hx
    rw [after_bind_of_ok hres]
    exact IsTrans.trans s t _ hx (h a t hres)
  | error e t =>
    rw [after_error hres] at hx
    rw [after_bind_of_error hres]
    exact hx

/-- `R` holds across the computation if it throws. -/
def Aborts (R : σ → σ → Prop) (x : EStateM ε σ α) (s : σ) : Prop := ∀ e t, x s = .error e t → R s t

omit [IsTrans σ R] in
theorem Aborts.of_stays [Stays R x] : Aborts R x s := by
  intro e t h
  have hx : R s (after x s) := Stays.stays s
  rwa [after_error h] at hx

omit [IsTrans σ R] in
theorem aborts_modify {g : σ → σ} : Aborts R (modify g : EStateM ε σ PUnit) s := nofun

theorem aborts_bind [Stays R x] (h : Ensures x s fun a t => Aborts R (f a) t) : Aborts R (x >>= f) s := by
  intro e u herr
  have hx : R s (after x s) := Stays.stays s
  cases hres : x s with
  | ok a t =>
    rw [after_ok hres] at hx
    rw [bind_of_ok hres] at herr
    exact IsTrans.trans s t u hx (h a t hres e u herr)
  | error e' t =>
    rw [after_error hres] at hx
    rw [bind_of_error hres] at herr
    cases herr
    exact hx

omit [IsTrans σ R] in
theorem Aborts.bind (h : Aborts R x s) (hf : ∀ a t e u, f a t ≠ .error e u) : Aborts R (x >>= f) s := by
  intro e u herr
  cases hres : x s with
  | ok a t =>
    rw [bind_of_ok hres] at herr
    exact absurd herr (hf a t e u)
  | error e' t =>
    rw [bind_of_error hres] at herr
    cases herr
    exact h _ _ hres

end After

end IshGo.Lib
