/-
# `IshGo.Lib.Quoting` — words with quotes and escapes, over any alphabet

A lexer that reads letters one at a time and collects words.  A backslash takes the next letter as
it is, except within single quotes; a quote of either kind takes everything up to the next of its
kind; blanks outside of quotes end a word.  The alphabet is a parameter, with the six letters that
have a meaning (`Marks`) and what each letter adds to a word (`text`).
-/
import Mathlib.Logic.Basic

namespace IshGo.Lib

open List

structure Marks (α : Type) where
  backslash : α
  single : α
  double : α
  space : α
  tab : α
  newline : α
  single_ne_double : single ≠ double

/-- The words so far, the word being read, the open quote, and whether the last letter was an
escape. -/
structure Lexer (α γ : Type) where
  args : List (List γ)
  word : List γ
  quote : Option α
  escaped : Bool
  deriving DecidableEq, Repr

namespace Lexer

variable {α β γ : Type}

def start : Lexer α γ := { args := [], word := [], quote := none, escaped := false }

def write (s : Lexer α γ) (text : List γ) : Lexer α γ := { s with word := s.word ++ text }

def put (s : Lexer α γ) (text : List γ) : Lexer α γ := { s with word := s.word ++ text, escaped := false }

def flush (s : Lexer α γ) : Lexer α γ :=
  if s.word.length > 0 then { s with args := s.args ++ [s.word], word := [] } else s

def step [DecidableEq α] (m : Marks α) (text : α → List γ) (s : Lexer α γ) (ch : α) : Lexer α γ :=
  if s.escaped then s.put (text ch)
  else if ch = m.backslash ∧ s.quote ≠ some m.single then { s with escaped := true }
  else
    match s.quote with
    | some quote => if ch = quote then { s with quote := none } else s.write (text ch)
    | none =>
      if ch = m.single ∨ ch = m.double then { s with quote := some ch }
      else if ch = m.space ∨ ch = m.tab ∨ ch = m.newline then s.flush
      else s.write (text ch)

def scan [DecidableEq α] (m : Marks α) (text : α → List γ) (line : List α) : Lexer α γ :=
  line.foldl (step m text) start

end Lexer

/-! ## Letters and states of two alphabets -/

section Alike

variable {α β γ : Type} (m : Marks α) (n : Marks β)

structure Marks.Plain (a : α) : Prop where
  backslash : a ≠ m.backslash
  single : a ≠ m.single
  double : a ≠ m.double
  space : a ≠ m.space
  tab : a ≠ m.tab
  newline : a ≠ m.newline

structure Marks.Alike (a : α) (b : β) : Prop where
  backslash : a = m.backslash ↔ b = n.backslash
  single : a = m.single ↔ b = n.single
  double : a = m.double ↔ b = n.double
  space : a = m.space ↔ b = n.space
  tab : a = m.tab ↔ b = n.tab
  newline : a = m.newline ↔ b = n.newline

inductive Marks.SameQuote : Option α → Option β → Prop
  | none : SameQuote none none
  | single : SameQuote (some m.single) (some n.single)
  | double : SameQuote (some m.double) (some n.double)

structure Lexer.Same (s : Lexer α γ) (t : Lexer β γ) : Prop where
  args : s.args = t.args
  word : s.word = t.word
  escaped : s.escaped = t.escaped
  quote : m.SameQuote n s.quote t.quote

end Alike

section SameQuote

variable {α β : Type} {m : Marks α} {n : Marks β} {q : Option α} {q' : Option β}

theorem Marks.SameQuote.symm (h : m.SameQuote n q q') : n.SameQuote m q' q := by
  cases h with
  | none => exact .none
  | single => exact .single
  | double => exact .double

theorem Marks.SameQuote.single_iff (h : m.SameQuote n q q') : q = some m.single ↔ q' = some n.single := by
  cases h with
  | none => exact iff_of_false (Option.some_ne_none _).symm (Option.some_ne_none _).symm
  | single => exact iff_of_true rfl rfl
  | double =>
    exact iff_of_false (fun h => m.single_ne_double (Option.some.inj h).symm)
      (fun h => n.single_ne_double (Option.some.inj h).symm)

theorem Marks.SameQuote.none_iff (h : m.SameQuote n q q') : q = Option.none ↔ q' = Option.none := by
  cases h with
  | none => exact iff_of_true rfl rfl
  | single | double => exact iff_of_false (Option.some_ne_none _) (Option.some_ne_none _)

theorem Marks.SameQuote.ne_plain {a : α} (h : m.SameQuote n q q') (ha : m.Plain a) : q ≠ some a := by
  cases h with
  | none => exact (Option.some_ne_none _).symm
  | single => exact fun h => ha.single (Option.some.inj h).symm
  | double => exact fun h => ha.double (Option.some.inj h).symm

end SameQuote

namespace Lexer

variable {α β γ : Type} {m : Marks α} {n : Marks β} {s s' : Lexer α γ} {t t' : Lexer β γ}

theorem put_put (s : Lexer α γ) (x y : List γ) : (s.put x).put y = s.put (x ++ y) := by
  rw [put, put, put, append_assoc]

namespace Same

theorem write (h : s.Same m n t) (text : List γ) : (s.write text).Same m n (t.write text) :=
  ⟨h.args, congrArg (· ++ text) h.word, h.escaped, h.quote⟩

theorem put (h : s.Same m n t) (text : List γ) : (s.put text).Same m n (t.put text) :=
  ⟨h.args, congrArg (· ++ text) h.word, rfl, h.quote⟩

theorem ite {p q : Prop} [Decidable p] [Decidable q] (hpq : p ↔ q) (h : p → s.Same m n t)
    (h' : ¬ p → s'.Same m n t') : (if p then s else s').Same m n (if q then t else t') := by
  by_cases hp : p
  · rw [if_pos hp, if_pos (hpq.mp hp)]
    exact h hp
  · rw [if_neg hp, if_neg (mt hpq.mpr hp)]
    exact h' hp

theorem flush (h : s.Same m n t) : s.flush.Same m n t.flush := by
  refine .ite (by rw [h.word]) (fun _ => ⟨?_, rfl, h.escaped, h.quote⟩) fun _ => h
  rw [h.args, h.word]

end Same

section Step

variable [DecidableEq α] [DecidableEq β] {f : α → List γ} {g : β → List γ} {a : α} {b : β}

theorem Same.next (h : s.Same m n t) (hab : m.Alike n a b) (htext : f a = g b) :
    (s.step m f a).Same m n (t.step n g b) := by
  have hbackslash : (a = m.backslash ∧ s.quote ≠ some m.single) ↔ (b = n.backslash ∧ t.quote ≠ some n.single) :=
    and_congr hab.backslash (not_congr h.quote.single_iff)
  have hwrite : (s.write (f a)).Same m n (t.write (g b)) := htext ▸ h.write (f a)
  refine .ite (by rw [h.escaped]) (fun _ => htext ▸ h.put (f a)) fun _ => ?_
  refine .ite hbackslash (fun _ => ⟨h.args, h.word, rfl, h.quote⟩) fun _ => ?_
  have hquote := h.quote
  generalize s.quote = q at hquote ⊢
  generalize t.quote = q' at hquote ⊢
  cases hquote with
  | none =>
    refine .ite (or_congr hab.single hab.double) (fun ha => ⟨h.args, h.word, h.escaped, ?_⟩) fun _ => ?_
    · rcases ha with ha | ha
      · rw [ha, hab.single.mp ha]
        exact .single
      · rw [ha, hab.double.mp ha]
        exact .double
    · exact .ite (or_congr hab.space (or_congr hab.tab hab.newline)) (fun _ => h.flush) fun _ => hwrite
  | single => exact .ite hab.single (fun _ => ⟨h.args, h.word, h.escaped, .none⟩) fun _ => hwrite
  | double => exact .ite hab.double (fun _ => ⟨h.args, h.word, h.escaped, .none⟩) fun _ => hwrite

/-- A letter without a meaning is written, escaped or not. -/
theorem step_plain (ha : m.Plain a) (hquote : s.quote ≠ some a) : s.step m f a = s.put (f a) := by
  have hbackslash : ¬ (a = m.backslash ∧ s.quote ≠ some m.single) := fun h => ha.backslash h.1
  unfold step
  by_cases hescaped : s.escaped = true
  · rw [if_pos hescaped]
  rw [if_neg hescaped, if_neg hbackslash]
  have hsame : s.write (f a) = s.put (f a) := by
    rw [put, ← Bool.eq_false_iff.mpr hescaped]
    rfl
  cases hq : s.quote with
  | none =>
    have hquotes : ¬ (a = m.single ∨ a = m.double) := not_or.mpr ⟨ha.single, ha.double⟩
    have hblank : ¬ (a = m.space ∨ a = m.tab ∨ a = m.newline) :=
      not_or.mpr ⟨ha.space, not_or.mpr ⟨ha.tab, ha.newline⟩⟩
    exact ((if_neg hquotes).trans (if_neg hblank)).trans hsame
  | some q =>
    have hne : a ≠ q := fun h => hquote (hq.trans (congrArg some h.symm))
    exact (if_neg hne).trans hsame

theorem foldl_plain {as : List α} (hne : as ≠ []) (has : ∀ a ∈ as, m.Plain a)
    (hquote : ∀ a ∈ as, s.quote ≠ some a) : as.foldl (step m f) s = s.put (as.flatMap f) := by
  induction as generalizing s with
  | nil => exact absurd rfl hne
  | cons a as ih =>
    have hfirst := step_plain (f := f) (has a mem_cons_self) (hquote a mem_cons_self)
    rw [foldl_cons, hfirst, flatMap_cons]
    cases as with
    | nil => rw [flatMap_nil, append_nil, foldl_nil]
    | cons b as =>
      have hrest := @ih (s.put (f a)) (cons_ne_nil b as) (fun a h => has a (mem_cons_of_mem _ h))
        (fun a h => hquote a (mem_cons_of_mem _ h))
      rw [hrest, put_put]

def Encodes (m : Marks α) (n : Marks β) (f : α → List γ) (g : β → List γ) (enc : β → List α) : Prop :=
  ∀ b, (∃ a, enc b = [a] ∧ m.Alike n a b ∧ f a = g b) ∨
    (n.Plain b ∧ enc b ≠ [] ∧ (∀ a ∈ enc b, m.Plain a) ∧ (enc b).flatMap f = g b)

theorem Same.letter {enc : β → List α} (henc : Encodes m n f g enc) (h : s.Same m n t) (b : β) :
    ((enc b).foldl (step m f) s).Same m n (t.step n g b) := by
  rcases henc b with ⟨a, ha, halike, htext⟩ | ⟨hb, hne, hplain, htext⟩
  · rw [ha]
    exact h.next halike htext
  · have hquote' : t.quote ≠ some b := h.quote.symm.ne_plain hb
    rw [foldl_plain hne hplain fun a ha => h.quote.ne_plain (hplain a ha), htext, step_plain hb hquote']
    exact h.put (g b)

theorem scan_encodes {enc : β → List α} (henc : Encodes m n f g enc) (line : List β) :
    (scan m f (line.flatMap enc)).Same m n (scan n g line) := by
  have hfold : ∀ (s : Lexer α γ) (t : Lexer β γ), s.Same m n t →
      ((line.flatMap enc).foldl (step m f) s).Same m n (line.foldl (step n g) t) := by
    induction line with
    | nil => exact fun _ _ h => h
    | cons b line ih =>
      intro s t h
      rw [flatMap_cons, foldl_append, foldl_cons]
      exact ih _ _ (h.letter henc b)
  exact hfold start start ⟨rfl, rfl, rfl, .none⟩

end Step

end Lexer

end IshGo.Lib
