/-
# `IshGo.Lib.WaitQueue` — first come, first woken

Threads `τ` wait at places `κ`.  `wake k n` takes the first `n` of those that wait at `k`; they
stay there, woken, until they leave.  A thread leaves because it has been woken, or for a
reason of its own.
-/
import Mathlib.Data.List.Nodup
import Mathlib.Logic.Function.Basic

namespace IshGo.Lib

structure WaitQueue (κ τ : Type) where
  /-- Who waits, the longest first. -/
  waiting : κ → List τ
  /-- Who has been woken and has not left. -/
  woken : κ → List τ

namespace WaitQueue

variable {κ τ : Type} [DecidableEq κ] [DecidableEq τ]

inductive Event (κ τ : Type) where
  | wait (k : κ) (t : τ)
  | wake (k : κ) (n : Nat)
  /-- `ok` if the thread says that it has been woken. -/
  | leave (k : κ) (t : τ) (ok : Bool)
  deriving DecidableEq, Repr

def empty : WaitQueue κ τ := { waiting := fun _ => [], woken := fun _ => [] }

def apply (q : WaitQueue κ τ) : Event κ τ → WaitQueue κ τ
  | .wait k t => { q with waiting := Function.update q.waiting k (q.waiting k ++ [t]) }
  | .wake k n =>
    { waiting := Function.update q.waiting k ((q.waiting k).drop n)
      woken := Function.update q.woken k (q.woken k ++ (q.waiting k).take n) }
  | .leave k t _ =>
    { waiting := Function.update q.waiting k ((q.waiting k).erase t)
      woken := Function.update q.woken k ((q.woken k).erase t) }

def run (q : WaitQueue κ τ) (es : List (Event κ τ)) : WaitQueue κ τ := es.foldl apply q

@[simp] theorem run_nil (q : WaitQueue κ τ) : q.run [] = q := rfl

@[simp] theorem run_cons (q : WaitQueue κ τ) (e : Event κ τ) (es : List (Event κ τ)) :
    q.run (e :: es) = (q.apply e).run es := rfl

theorem run_append (q : WaitQueue κ τ) (es es' : List (Event κ τ)) :
    q.run (es ++ es') = (q.run es).run es' := List.foldl_append

/-! ## Who is where -/

section Apply
variable (q : WaitQueue κ τ) (k k' : κ) (t : τ) (n : Nat)

theorem waiting_wait :
    (q.apply (.wait k t)).waiting k' = if k' = k then q.waiting k' ++ [t] else q.waiting k' := by
  by_cases h : k' = k
  · subst h
    simp [apply]
  · simp [apply, h]

@[simp] theorem woken_wait : (q.apply (.wait k t)).woken = q.woken := rfl

theorem waiting_wake :
    (q.apply (.wake k n)).waiting k' = if k' = k then (q.waiting k').drop n else q.waiting k' := by
  by_cases h : k' = k
  · subst h
    simp [apply]
  · simp [apply, h]

theorem woken_wake :
    (q.apply (.wake k n)).woken k' =
      if k' = k then q.woken k' ++ (q.waiting k').take n else q.woken k' := by
  by_cases h : k' = k
  · subst h
    simp [apply]
  · simp [apply, h]

theorem waiting_leave (ok : Bool) :
    (q.apply (.leave k t ok)).waiting k' =
      if k' = k then (q.waiting k').erase t else q.waiting k' := by
  by_cases h : k' = k
  · subst h
    simp [apply]
  · simp [apply, h]

theorem woken_leave (ok : Bool) :
    (q.apply (.leave k t ok)).woken k' = if k' = k then (q.woken k').erase t else q.woken k' := by
  by_cases h : k' = k
  · subst h
    simp [apply]
  · simp [apply, h]

end Apply

/-! ## The ledger -/

/-- How many the wakes at `k` have counted. -/
def counted (q : WaitQueue κ τ) (k : κ) : List (Event κ τ) → Nat
  | [] => 0
  | e :: es =>
    (match e with
      | .wake k' n => if k' = k then min n (q.waiting k).length else 0
      | _ => 0) + (q.apply e).counted k es

/-- How many have left `k` and say that they were woken. -/
def met (k : κ) (es : List (Event κ τ)) : Nat :=
  es.countP fun
    | .leave k' _ ok => k' = k ∧ ok = true
    | _ => False

/-- How many have left `k` for another reason although they had been woken. -/
def lost (q : WaitQueue κ τ) (k : κ) : List (Event κ τ) → Nat
  | [] => 0
  | e :: es =>
    (match e with
      | .leave k' t false => if k' = k ∧ t ∈ q.woken k then 1 else 0
      | _ => 0) + (q.apply e).lost k es

def Honest (q : WaitQueue κ τ) : List (Event κ τ) → Prop
  | [] => True
  | e :: es =>
    (∀ k t, e = .leave k t true → t ∈ q.woken k) ∧ (q.apply e).Honest es

theorem counted_append (q : WaitQueue κ τ) (k : κ) (es es' : List (Event κ τ)) :
    q.counted k (es ++ es') = q.counted k es + (q.run es).counted k es' := by
  induction es generalizing q with
  | nil => simp [counted]
  | cons e es ih => simp only [List.cons_append, counted, ih, run_cons, Nat.add_assoc]

theorem lost_append (q : WaitQueue κ τ) (k : κ) (es es' : List (Event κ τ)) :
    q.lost k (es ++ es') = q.lost k es + (q.run es).lost k es' := by
  induction es generalizing q with
  | nil => simp [lost]
  | cons e es ih => simp only [List.cons_append, lost, ih, run_cons, Nat.add_assoc]

theorem ledger_step (q : WaitQueue κ τ) (k : κ) (e : Event κ τ)
    (h : ∀ k t, e = .leave k t true → t ∈ q.woken k) :
    q.counted k [e] + (q.woken k).length =
      met k [e] + q.lost k [e] + ((q.apply e).woken k).length := by
  cases e with
  | wait k' t => simp [counted, met, lost]
  | wake k' n =>
    rw [woken_wake]
    by_cases hk : k' = k
    · subst hk
      simp [counted, met, lost]
      omega
    · simp [counted, met, lost, hk, Ne.symm hk]
  | leave k' t ok =>
    rw [woken_leave]
    by_cases hk : k' = k
    · subst hk
      by_cases ht : t ∈ q.woken k'
      · have hpos := List.length_pos_of_mem ht
        have hlen := List.length_erase_of_mem ht
        cases ok <;> simp [counted, met, lost, ht] <;> omega
      · cases ok with
        | true => exact absurd (h k' t rfl) ht
        | false => simp [counted, met, lost, ht, List.erase_of_not_mem ht]
    · cases ok <;> simp [counted, met, lost, hk, Ne.symm hk]

theorem ledger (q : WaitQueue κ τ) (k : κ) (es : List (Event κ τ)) (h : q.Honest es) :
    q.counted k es + (q.woken k).length =
      met k es + q.lost k es + ((q.run es).woken k).length := by
  induction es generalizing q with
  | nil => simp [counted, met, lost]
  | cons e es ih =>
    have hstep := ledger_step q k e h.1
    have hrest := ih (q.apply e) h.2
    have hmet : met k (e :: es) = met k [e] + met k es := by
      rw [← List.singleton_append, met, List.countP_append]
      rfl
    simp only [counted, lost, Nat.add_zero] at hstep hrest ⊢
    rw [hmet, run_cons]
    omega

end WaitQueue

end IshGo.Lib
