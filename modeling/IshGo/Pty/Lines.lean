/-
# `IshGo.Pty.Lines` — lines in canonical mode

A terminal in canonical mode is to give its reader whole lines: no byte of a line before the line
has its end, and after the close every byte before the EOF.  `read` looks for a line end anywhere
in the queue and then copies the queue as far as the buffer goes.
-/
import IshGo.Pty.Queues
import Mathlib.Data.List.Induction

namespace IshGo.Pty

open I386 Kernel Terminal Call List

variable {before : List Call} {len : Nat}

/-! ## Lines that have ended -/

/-- How many bytes of a stream belong to lines that have their end. -/
def ended : List U8 → Nat
  | [] => 0
  | b :: q => if 0 < ended q then ended q + 1 else if b = 10 ∨ b = 13 then 1 else 0

theorem ended_pos_iff (q : List U8) : 0 < ended q ↔ containsNewline q = true := by
  induction q with
  | nil => exact iff_of_false (Nat.lt_irrefl 0) Bool.false_ne_true
  | cons b q ih =>
    rw [containsNewline, any_cons, Bool.or_eq_true, decide_eq_true_eq, ended]
    by_cases hq : 0 < ended q
    · rw [if_pos hq]
      exact iff_of_true (Nat.succ_pos _) (.inr (ih.mp hq))
    rw [if_neg hq]
    have hnone : ¬ q.any (fun b => b = 10 ∨ b = 13) = true := fun h => hq (ih.mpr h)
    split
    · rename_i hb
      exact iff_of_true Nat.one_pos (.inl hb)
    · rename_i hb
      exact iff_of_false (Nat.lt_irrefl 0) (not_or.mpr ⟨hb, hnone⟩)

theorem ended_append (xs : List U8) {q : List U8} (h : 0 < ended q) : ended (xs ++ q) = xs.length + ended q := by
  induction xs with
  | nil => exact (Nat.zero_add _).symm
  | cons b xs ih =>
    have hpos : 0 < ended (xs ++ q) := by omega
    rw [cons_append, ended, if_pos hpos, ih, length_cons]
    omega

theorem ended_le_append (xs ys : List U8) : ended xs ≤ ended (xs ++ ys) := by
  induction xs with
  | nil => exact Nat.zero_le _
  | cons b xs ih =>
    rw [cons_append, ended, ended]
    by_cases hxs : 0 < ended xs
    · rw [if_pos hxs, if_pos (Nat.lt_of_lt_of_le hxs ih)]
      omega
    rw [if_neg hxs]
    split
    · split
      · omega
      · exact Nat.le_refl 1
    · exact Nat.zero_le _

/-! ## The discipline -/

/-- At every moment before the close, no byte has been returned but of lines that have ended. -/
def Held (t : Terminal) (cs : List Call) : Prop :=
  ∀ before after, cs = before ++ after → (run t before).2.inputShut = false →
    (taken (run t before).1).length ≤ ended (t.input ++ typed (run t before).1)

def Delivered (t : Terminal) (cs : List Call) : Prop :=
  ∀ before len after, cs = before ++ .readInput len :: after →
    ∀ r t', (readInput len).turn (run t before).2 = some (r, t') → r.err = some .eof →
      taken (run t before).1 = t.input ++ typed (run t before).1

/-- A buffer that does not reach past the last line end, unless nothing is queued there. -/
def Within (len : Nat) (t : Terminal) : Prop :=
  t.inputShut = false → containsNewline t.input = true → min len t.input.length ≤ ended t.input

def Terminated (len : Nat) (t : Terminal) : Prop :=
  t.inputShut = true → 0 < len → t.input = [] ∨ containsNewline t.input = true

section Lines

variable {t : Terminal} {cs : List Call}

theorem run_canonical (ht : t.canonical = true) (hcs : setCanonical false ∉ cs) :
    (run t cs).2.canonical = true := by
  induction cs generalizing t with
  | nil => exact ht
  | cons c cs ih =>
    obtain ⟨hc, hrest⟩ := ne_and_not_mem_of_not_mem_cons hcs
    cases hturn : c.turn t with
    | none =>
      rw [run_wait hturn]
      exact ih ht hrest
    | some rt =>
      rw [run_return hturn]
      exact ih ((turn_effect hturn).canonical hc.symm ht) hrest

theorem typed_append (l₁ l₂ : List Return) : typed (l₁ ++ l₂) = typed l₁ ++ typed l₂ := flatMap_append ..

theorem taken_append (l₁ l₂ : List Return) : taken (l₁ ++ l₂) = taken l₁ ++ taken l₂ := flatMap_append ..

theorem ended_stream (h : containsNewline (run t before).2.input = true) :
    ended (t.input ++ typed (run t before).1) =
      (taken (run t before).1).length + ended (run t before).2.input := by
  rw [← (run_balanced t before).1]
  exact ended_append _ ((ended_pos_iff _).mpr h)

theorem readInput_line (hlen : 0 < len) (hline : containsNewline t.input = true) :
    (readInput len).turn t = some (⟨min len t.input.length, none, t.input.take len⟩,
      { t with input := t.input.drop (min len t.input.length) }) := by
  have hqueue : t.input ≠ [] := by
    intro h
    rw [h] at hline
    cases hline
  rw [turn, if_neg (Nat.ne_of_gt hlen), readTurn, if_pos ⟨length_pos_iff.mpr hqueue, .inr hline⟩]

theorem readInput_eof (hlen : 0 < len) (hcanonical : t.canonical = true)
    (hshut : t.inputShut = true) (hline : containsNewline t.input = false) :
    (readInput len).turn t = some (⟨0, some .eof, []⟩, t) := by
  have hready : ¬ (t.input.length > 0 ∧ (t.canonical = false ∨ containsNewline t.input = true)) := by
    rw [hcanonical, hline]
    exact fun h => h.2.elim (by decide) (by decide)
  have hflags : t.closed ∨ t.inputClosed := by simpa [inputShut] using hshut
  rw [turn, if_neg (Nat.ne_of_gt hlen), readTurn, if_neg hready, if_pos hflags]

/-- A read that returns bytes keeps to ended lines exactly if it is `Within` them. -/
theorem read_held_iff {t' : Terminal} (hline : containsNewline (run t before).2.input = true)
    (hturn : (readInput len).turn (run t before).2 =
      some (⟨min len (run t before).2.input.length, none, (run t before).2.input.take len⟩, t')) :
    (taken (run t (before ++ [.readInput len])).1).length ≤
        ended (t.input ++ typed (run t (before ++ [.readInput len])).1) ↔
      min len (run t before).2.input.length ≤ ended (run t before).2.input := by
  have htyped : typed (run t (before ++ [.readInput len])).1 = typed (run t before).1 := by
    rw [run_concat_return hturn, typed_append]
    exact append_nil _
  have htaken : (taken (run t (before ++ [.readInput len])).1).length =
      (taken (run t before).1).length + min len (run t before).2.input.length := by
    rw [run_concat_return hturn, taken_append, length_append, ← length_take]
    exact congrArg (fun xs => _ + length xs) (append_nil _)
  rw [htyped, htaken, ended_stream hline]
  exact Nat.add_le_add_iff_left

theorem held_step {c : Call} {r : Transfer} {t' : Terminal}
    (hcanonical : (run t before).2.canonical = true) (hopen : (run t before).2.inputShut = false)
    (hturn : c.turn (run t before).2 = some (r, t'))
    (hwithin : ∀ len, c = .readInput len → Within len (run t before).2)
    (ih : (taken (run t before).1).length ≤ ended (t.input ++ typed (run t before).1)) :
    (taken (run t (before ++ [c])).1).length ≤ ended (t.input ++ typed (run t (before ++ [c])).1) := by
  have hstill (h : (⟨c, (run t before).2.echo, r⟩ : Return).taken = []) :
      (taken (run t (before ++ [c])).1).length ≤ ended (t.input ++ typed (run t (before ++ [c])).1) := by
    have hnone : taken [⟨c, (run t before).2.echo, r⟩] = [] := by rw [taken, flatMap_singleton, h]
    rw [run_concat_return hturn, taken_append, typed_append, hnone, append_nil, ← append_assoc]
    exact ih.trans (ended_le_append _ _)
  cases c with
  | readInput len =>
    obtain ⟨-, -, hready, rfl, -⟩ | ⟨-, -, -, rfl, -⟩ | ⟨-, rfl, -⟩ := readInput_cases hturn
    · have hline := hready.resolve_left (by rw [hcanonical]; decide)
      exact (read_held_iff hline hturn).mpr (hwithin len rfl hopen hline)
    · exact hstill rfl
    · exact hstill rfl
  | _ => exact hstill rfl

theorem held_iff (ht : t.canonical = true) (hcs : setCanonical false ∉ cs) :
    Held t cs ↔ ∀ before len after, cs = before ++ .readInput len :: after → Within len (run t before).2 := by
  constructor
  · intro hheld before len after hsplit hopen hline
    cases len with
    | zero => exact (Nat.zero_min _).symm ▸ Nat.zero_le _
    | succ len =>
      have hnext : cs = before ++ [.readInput (len + 1)] ++ after := by
        rw [hsplit, append_assoc]
        rfl
      have hturn := readInput_line (Nat.succ_pos len) hline
      refine (read_held_iff hline hturn).mp (hheld _ _ hnext ?_)
      rw [run_concat_return hturn]
      exact hopen
  intro hall before
  induction before using reverseRecOn with
  | nil => exact fun _ _ _ => Nat.zero_le _
  | append_singleton before c ih =>
    intro after hsplit hopen
    rw [append_assoc] at hsplit
    cases hturn : c.turn (run t before).2 with
    | none =>
      rw [run_concat_wait hturn] at hopen ⊢
      exact ih _ hsplit hopen
    | some rt =>
      have hshut := (turn_effect hturn).inputShut
      rw [run_concat_return hturn] at hopen
      rw [hopen] at hshut
      have hbefore : (run t before).2.inputShut = false := (Bool.or_eq_false_iff.mp hshut.symm).1
      have hmem : setCanonical false ∉ before := fun h => hcs (hsplit ▸ mem_append_left _ h)
      refine held_step (run_canonical ht hmem) hbefore hturn (fun len hc => ?_) (ih _ hsplit hbefore)
      exact hall before len after (by rw [hsplit, hc]; rfl)

theorem delivered_iff (ht : t.canonical = true) (hcs : setCanonical false ∉ cs) :
    Delivered t cs ↔
      ∀ before len after, cs = before ++ .readInput len :: after → Terminated len (run t before).2 := by
  have hall (before : List Call) : taken (run t before).1 = t.input ++ typed (run t before).1 ↔
      (run t before).2.input = [] := by
    rw [← (run_balanced t before).1]
    exact self_eq_append_right
  constructor
  · intro hdelivered before len after hsplit hshut hlen
    have hmem : setCanonical false ∉ before := fun h => hcs (hsplit ▸ mem_append_left _ h)
    have hcanonical := run_canonical ht hmem
    cases hline : containsNewline (run t before).2.input with
    | true => exact .inr rfl
    | false =>
      have hturn := readInput_eof hlen hcanonical hshut hline
      exact .inl ((hall before).mp (hdelivered before len after hsplit _ _ hturn rfl))
  intro hterm before len after hsplit r t' hturn heof
  refine (hall before).mpr ?_
  obtain ⟨-, -, -, rfl, -⟩ | ⟨hlen, hshut, hnot, -, -⟩ | ⟨-, rfl, -⟩ := readInput_cases hturn
  · cases heof
  · refine (hterm before len after hsplit hshut hlen).elim id fun hline => ?_
    by_contra hqueue
    exact hnot ⟨hqueue, .inr hline⟩
  · cases heof

/-- **Canonical mode.**  In every sequence of turns on a terminal that is and stays in canonical
mode: no byte of a line without its end is returned before the close exactly if no read that finds a
line end reaches past the last one into further bytes; and no EOF comes before the last byte exactly
if no read after the close finds bytes without a line end. -/
theorem canonical_lines_iff (ht : t.canonical = true) (hcs : setCanonical false ∉ cs) :
    (Held t cs ↔
      ∀ before len after, cs = before ++ .readInput len :: after → Within len (run t before).2) ∧
    (Delivered t cs ↔
      ∀ before len after, cs = before ++ .readInput len :: after → Terminated len (run t before).2) :=
  ⟨held_iff ht hcs, delivered_iff ht hcs⟩

end Lines

def oneLine : List Call := [.writeInput [0x61, 10], .readInput 8]

theorem canonical_lines_iff_one :
    taken (run new oneLine).1 = [0x61, 10] ∧ Held new oneLine ∧ Delivered new oneLine := by
  have hiff := @canonical_lines_iff new oneLine rfl (by decide)
  have honly : ∀ before len after, oneLine = before ++ .readInput len :: after →
      before = [.writeInput [0x61, 10]] := by
    intro before len after hsplit
    cases before with
    | nil => cases hsplit
    | cons c before =>
      obtain ⟨rfl, hrest⟩ := cons.inj hsplit
      cases before with
      | nil => rfl
      | cons d before =>
        exact absurd (cons.inj hrest).2.symm (append_ne_nil_of_right_ne_nil _ (cons_ne_nil _ _))
  refine ⟨by decide, hiff.1.mpr ?_, hiff.2.mpr ?_⟩
  · intro before len after hsplit _ _
    rw [honly before len after hsplit]
    exact Nat.min_le_right _ _
  · intro before len after hsplit hshut
    rw [honly before len after hsplit] at hshut
    cases hshut

/-- A line and the beginning of the next come out together, and an unfinished line never does. -/
theorem canonical_lines_broken :
    ¬ Held new [.writeInput [0x61, 10, 0x62], .readInput 8] ∧
      ¬ Delivered new [.writeInput [0x61], .closeInput, .readInput 8] := by
  constructor
  · intro h
    exact absurd (h [.writeInput [0x61, 10, 0x62], .readInput 8] [] rfl (by decide)) (by decide)
  · intro h
    exact absurd (h [.writeInput [0x61], .closeInput] 8 [] rfl ⟨0, some .eof, []⟩ _ rfl rfl) (by decide)

end IshGo.Pty
