/-
# `IshGo.Pty.Queues` — the two queues of a terminal

`internal/pty/pty.go` by itself: every method of `Terminal`, called by any number of goroutines.
Each method but `read` and `WaitInput` is one critical section; those two are loops whose every
turn is one, so an interleaving of calls is a sequence of turns.  A turn that has to wait changes
nothing and is taken again later; the wake-up channels say when at the earliest, and are left out,
so that here it may be at any time.
-/
import IshGo.Kernel.Handles
import Mathlib.Logic.Function.Basic

namespace IshGo.Kernel.Terminal

open I386

variable {cs : List Call} {e : Return} {r : Transfer} {t' : Terminal}

def close (t : Terminal) : Terminal := { t with closed := true, inputClosed := true }

def closeInput (t : Terminal) : Terminal := { t with inputClosed := true }

def writeInput (t : Terminal) (data : List U8) : Transfer × Terminal :=
  if t.closed ∨ t.inputClosed then (⟨0, some .eof, []⟩, t)
  else
    let t := { t with input := t.input ++ data }
    (⟨data.length, none, data⟩, if t.echo then { t with output := t.output ++ data } else t)

/-- A turn of the loop of `read` on the output queue; `none` if it has to wait. -/
def readOutputTurn (t : Terminal) (len : Nat) : Option (Transfer × Terminal) :=
  if t.output.length > 0 then
    let n := min len t.output.length
    some (⟨n, none, t.output.take len⟩, { t with output := t.output.drop n })
  else if t.closed then some (⟨0, some .eof, []⟩, t)
  else none

def drainOutput (t : Terminal) : Transfer × Terminal :=
  (⟨t.output.length, none, t.output⟩, { t with output := [] })

/-- `inputReadyLocked` -/
def inputReady (t : Terminal) : Bool :=
  t.closed || t.inputClosed || (t.input.length > 0 && (!t.canonical || containsNewline t.input))

/-- `WriteInput` refuses data. -/
def inputShut (t : Terminal) : Bool := t.closed || t.inputClosed

end IshGo.Kernel.Terminal

namespace IshGo.Pty

open I386 Kernel

/-! ## Calls and their turns -/

/-- The methods of `Terminal`, and the two fields that its owner may set. -/
inductive Call where
  | writeInput (data : List U8)
  | readInput (len : Nat)
  | writeOutput (data : List U8)
  | readOutput (len : Nat)
  | drainOutput
  | closeInput
  | close
  | waitInput
  | setCanonical (b : Bool)
  | setEcho (b : Bool)
  deriving DecidableEq, Repr

/-- What a call returns that returns nothing, and a read into an empty buffer. -/
def silent : Transfer := ⟨0, none, []⟩

namespace Call

/-- One critical section of a call; `none` if it has to wait.  A read into an empty buffer returns
without one. -/
def turn (t : Terminal) : Call → Option (Transfer × Terminal)
  | writeInput data => some (t.writeInput data)
  | readInput len => if len = 0 then some (silent, t) else t.readTurn len
  | writeOutput data => some (t.writeOutput data)
  | readOutput len => if len = 0 then some (silent, t) else t.readOutputTurn len
  | drainOutput => some t.drainOutput
  | closeInput => some (silent, t.closeInput)
  | close => some (silent, t.close)
  | waitInput => if t.inputReady then some (silent, t) else none
  | setCanonical b => some (silent, { t with canonical := b })
  | setEcho b => some (silent, { t with echo := b })

def waits : Call → Bool
  | readInput _ | readOutput _ | waitInput => true
  | _ => false

def shutsInput : Call → Bool
  | closeInput | close => true
  | _ => false

end Call

/-- A call that has returned, and `Echo` as it found it. -/
structure Return where
  call : Call
  echo : Bool
  result : Transfer
  deriving DecidableEq, Repr

namespace Return

/-- Data accepted by `WriteInput`: as much as the count says. -/
def typed (e : Return) : List U8 :=
  match e.call with
  | .writeInput data => data.take e.result.count
  | _ => []

/-- Bytes returned by `ReadInput`. -/
def taken (e : Return) : List U8 :=
  match e.call with
  | .readInput _ => e.result.bytes
  | _ => []

/-- Data accepted by `WriteOutput`, or by `WriteInput` while `Echo` is set. -/
def printed (e : Return) : List U8 :=
  match e.call with
  | .writeOutput data => data.take e.result.count
  | .writeInput data => if e.echo then data.take e.result.count else []
  | _ => []

/-- Bytes returned by `ReadOutput` and `DrainOutput`. -/
def shown (e : Return) : List U8 :=
  match e.call with
  | .readOutput _ | .drainOutput => e.result.bytes
  | _ => []

end Return

def typed (log : List Return) : List U8 := log.flatMap Return.typed

def taken (log : List Return) : List U8 := log.flatMap Return.taken

def printed (log : List Return) : List U8 := log.flatMap Return.printed

def shown (log : List Return) : List U8 := log.flatMap Return.shown

/-! ## One turn -/

section Turn

variable {t t' : Terminal} {c : Call} {r : Transfer}

theorem writeInput_open (data : List U8) (h : t.inputShut = false) :
    t.writeInput data = (⟨data.length, none, data⟩,
      { t with input := t.input ++ data, output := if t.echo then t.output ++ data else t.output }) := by
  have hflags : ¬ (t.closed ∨ t.inputClosed) := by simpa [Terminal.inputShut] using h
  rw [Terminal.writeInput, if_neg hflags]
  cases t with | mk input output closed inputClosed canonical echo =>
  cases echo <;> rfl

theorem writeInput_shut (data : List U8) (h : t.inputShut = true) :
    t.writeInput data = (⟨0, some .eof, []⟩, t) := by
  have hflags : t.closed ∨ t.inputClosed := by simpa [Terminal.inputShut] using h
  rw [Terminal.writeInput, if_pos hflags]

/-- The answer to a write while the queue is open, and afterwards. -/
def answer (data : List U8) (shut : Bool) : Transfer :=
  if shut then ⟨0, some .eof, []⟩ else ⟨data.length, none, data⟩

theorem writeInput_answer (t : Terminal) (data : List U8) : (t.writeInput data).1 = answer data t.inputShut := by
  cases hshut : t.inputShut with
  | true => rw [writeInput_shut data hshut, answer, if_pos rfl]
  | false => rw [writeInput_open data hshut, answer, if_neg Bool.false_ne_true]

theorem writeOutput_answer (t : Terminal) (data : List U8) : (t.writeOutput data).1 = answer data t.closed := by
  unfold Terminal.writeOutput answer
  split <;> rfl

theorem readInput_cases {len : Nat} (h : Call.turn t (.readInput len) = some (r, t')) :
    (0 < len ∧ t.input ≠ [] ∧ (t.canonical = false ∨ Terminal.containsNewline t.input = true) ∧
      r = ⟨min len t.input.length, none, t.input.take len⟩ ∧
      t' = { t with input := t.input.drop (min len t.input.length) }) ∨
    (0 < len ∧ t.inputShut = true ∧
      ¬ (t.input ≠ [] ∧ (t.canonical = false ∨ Terminal.containsNewline t.input = true)) ∧
      r = ⟨0, some .eof, []⟩ ∧ t' = t) ∨
    (len = 0 ∧ r = silent ∧ t' = t) := by
  rw [Call.turn] at h
  split at h
  · rename_i hlen
    cases h
    exact .inr (.inr ⟨hlen, rfl, rfl⟩)
  rename_i hlen
  have hpos := Nat.pos_of_ne_zero hlen
  rw [Terminal.readTurn] at h
  split at h
  · rename_i hready
    cases h
    exact .inl ⟨hpos, List.length_pos_iff.mp hready.1, hready.2, rfl, rfl⟩
  rename_i hready
  split at h
  · rename_i hshut
    cases h
    refine .inr (.inl ⟨hpos, by simpa [Terminal.inputShut] using hshut, ?_, rfl, rfl⟩)
    exact fun hq => hready ⟨List.length_pos_iff.mpr hq.1, hq.2⟩
  · cases h

/-- What a turn that returns does: it takes from the fronts of the queues, adds to their ends, and
sets the flags if it is one of the two calls that close. -/
structure Effect (e : Return) (t t' : Terminal) : Prop where
  input : e.taken ++ t'.input = t.input ++ e.typed
  output : e.shown ++ t'.output = t.output ++ e.printed
  inputShut : t'.inputShut = (t.inputShut || e.call.shutsInput)
  closed : t'.closed = (t.closed || decide (e.call = .close))
  canonical : e.call ≠ .setCanonical false → t.canonical = true → t'.canonical = true

theorem Effect.refl (hinput : e.taken = e.typed ∧ e.typed = [])
    (houtput : e.shown = e.printed ∧ e.printed = []) (hshuts : e.call.shutsInput = false) : Effect e t t := by
  have hclose : e.call ≠ .close := by
    intro h
    rw [h] at hshuts
    cases hshuts
  refine ⟨?_, ?_, ?_, ?_, fun _ h => h⟩
  · rw [hinput.1, hinput.2, List.append_nil]
    rfl
  · rw [houtput.1, houtput.2, List.append_nil]
    rfl
  · rw [hshuts, Bool.or_false]
  · rw [decide_eq_false hclose, Bool.or_false]

theorem effect_writeInput (data : List U8) :
    Effect ⟨.writeInput data, t.echo, (t.writeInput data).1⟩ t (t.writeInput data).2 := by
  cases hshut : t.inputShut with
  | true =>
    rw [writeInput_shut data hshut]
    have hprinted : (if t.echo then data.take 0 else []) = [] := by rw [List.take_zero, ite_self]
    exact .refl ⟨rfl, rfl⟩ ⟨hprinted.symm, hprinted⟩ rfl
  | false =>
    rw [writeInput_open data hshut]
    refine ⟨?_, ?_, ?_, (Bool.or_false _).symm, fun _ h => h⟩
    · show t.input ++ data = t.input ++ data.take data.length
      rw [List.take_length]
    · show (if t.echo then t.output ++ data else t.output) =
        t.output ++ if t.echo then data.take data.length else []
      rw [List.take_length]
      split
      · rfl
      · exact (List.append_nil _).symm
    · exact (Bool.or_false _).symm

theorem turn_effect (h : c.turn t = some (r, t')) : Effect ⟨c, t.echo, r⟩ t t' := by
  cases c with
  | writeInput data =>
    rw [Call.turn, Option.some.injEq] at h
    have heffect := @effect_writeInput t data
    rwa [h] at heffect
  | readInput len =>
    obtain ⟨-, -, -, rfl, rfl⟩ | ⟨-, -, -, rfl, rfl⟩ | ⟨-, rfl, rfl⟩ := readInput_cases h
    · refine ⟨?_, (List.append_nil _).symm, (Bool.or_false _).symm, (Bool.or_false _).symm, fun _ h => h⟩
      show t.input.take len ++ t.input.drop (min len t.input.length) = t.input ++ []
      rw [take_append_drop_min, List.append_nil]
    · exact .refl ⟨rfl, rfl⟩ ⟨rfl, rfl⟩ rfl
    · exact .refl ⟨rfl, rfl⟩ ⟨rfl, rfl⟩ rfl
  | writeOutput data =>
    rw [Call.turn, Terminal.writeOutput] at h
    split at h
    · cases h
      exact .refl ⟨rfl, rfl⟩ ⟨rfl, rfl⟩ rfl
    cases h
    refine ⟨(List.append_nil _).symm, ?_, (Bool.or_false _).symm, (Bool.or_false _).symm, fun _ h => h⟩
    show t.output ++ data = t.output ++ data.take data.length
    rw [List.take_length]
  | readOutput len =>
    rw [Call.turn, Terminal.readOutputTurn] at h
    split at h
    · cases h
      exact .refl ⟨rfl, rfl⟩ ⟨rfl, rfl⟩ rfl
    split at h
    · cases h
      refine ⟨(List.append_nil _).symm, ?_, (Bool.or_false _).symm, (Bool.or_false _).symm, fun _ h => h⟩
      show t.output.take len ++ t.output.drop (min len t.output.length) = t.output ++ []
      rw [take_append_drop_min, List.append_nil]
    split at h
    · cases h
      exact .refl ⟨rfl, rfl⟩ ⟨rfl, rfl⟩ rfl
    · cases h
  | drainOutput =>
    cases h
    exact ⟨(List.append_nil _).symm, rfl, (Bool.or_false _).symm, (Bool.or_false _).symm, fun _ h => h⟩
  | closeInput =>
    cases h
    refine ⟨(List.append_nil _).symm, (List.append_nil _).symm, ?_, (Bool.or_false _).symm, fun _ h => h⟩
    exact (Bool.or_true _).trans (Bool.or_true _).symm
  | close =>
    cases h
    exact ⟨(List.append_nil _).symm, (List.append_nil _).symm, (Bool.or_true _).symm, (Bool.or_true _).symm,
      fun _ h => h⟩
  | waitInput =>
    rw [Call.turn] at h
    split at h
    · cases h
      exact .refl ⟨rfl, rfl⟩ ⟨rfl, rfl⟩ rfl
    · cases h
  | setCanonical b =>
    cases h
    refine ⟨(List.append_nil _).symm, (List.append_nil _).symm, (Bool.or_false _).symm, (Bool.or_false _).symm,
      fun hb _ => ?_⟩
    cases b with
    | true => rfl
    | false => exact absurd rfl hb
  | setEcho b =>
    cases h
    exact ⟨(List.append_nil _).symm, (List.append_nil _).symm, (Bool.or_false _).symm, (Bool.or_false _).symm,
      fun _ h => h⟩

end Turn

/-! ## Turn after turn -/

/-- The turns `cs` in order: the calls that returned, and the terminal at the end. -/
def run (t : Terminal) : List Call → List Return × Terminal
  | [] => ([], t)
  | c :: cs =>
    match c.turn t with
    | none => run t cs
    | some (r, t') => (⟨c, t.echo, r⟩ :: (run t' cs).1, (run t' cs).2)

section Run

variable {t : Terminal} {c : Call}

theorem run_wait (h : c.turn t = none) (cs : List Call) : run t (c :: cs) = run t cs := by
  rw [run, h]

theorem run_return (h : c.turn t = some (r, t')) (cs : List Call) :
    run t (c :: cs) = (⟨c, t.echo, r⟩ :: (run t' cs).1, (run t' cs).2) := by
  rw [run, h]

theorem run_append (t : Terminal) (cs ds : List Call) :
    run t (cs ++ ds) = ((run t cs).1 ++ (run (run t cs).2 ds).1, (run (run t cs).2 ds).2) := by
  induction cs generalizing t with
  | nil => rfl
  | cons c cs ih =>
    rw [List.cons_append]
    cases hturn : c.turn t with
    | none =>
      rw [run_wait hturn, run_wait hturn]
      exact ih t
    | some rt =>
      rw [run_return hturn, run_return hturn, ih rt.2]
      rfl

theorem run_concat_wait (h : c.turn (run t cs).2 = none) : run t (cs ++ [c]) = run t cs := by
  rw [run_append, run_wait h, run, List.append_nil]

theorem run_concat_return (h : c.turn (run t cs).2 = some (r, t')) :
    run t (cs ++ [c]) = ((run t cs).1 ++ [⟨c, (run t cs).2.echo, r⟩], t') := by
  rw [run_append, run_return h, run]

/-- Whatever the turns: what has been taken and what is queued is what was queued and what has been
accepted since. -/
theorem run_balanced (t : Terminal) (cs : List Call) :
    taken (run t cs).1 ++ (run t cs).2.input = t.input ++ typed (run t cs).1 ∧
      shown (run t cs).1 ++ (run t cs).2.output = t.output ++ printed (run t cs).1 := by
  induction cs generalizing t with
  | nil => exact ⟨(List.append_nil _).symm, (List.append_nil _).symm⟩
  | cons c cs ih =>
    cases hturn : c.turn t with
    | none =>
      rw [run_wait hturn]
      exact ih t
    | some rt =>
      have heffect := turn_effect hturn
      obtain ⟨hinput, houtput⟩ := ih rt.2
      rw [run_return hturn]
      constructor
      · rw [taken, typed, List.flatMap_cons, List.flatMap_cons, List.append_assoc, ← List.append_assoc t.input,
          ← heffect.input, List.append_assoc]
        exact congrArg _ hinput
      · rw [shown, printed, List.flatMap_cons, List.flatMap_cons, List.append_assoc,
          ← List.append_assoc t.output, ← heffect.output, List.append_assoc]
        exact congrArg _ houtput

theorem run_shut (t : Terminal) (cs : List Call) :
    (run t cs).2.inputShut = (t.inputShut || (run t cs).1.any (·.call.shutsInput)) ∧
      (run t cs).2.closed = (t.closed || (run t cs).1.any (·.call = .close)) := by
  induction cs generalizing t with
  | nil => exact ⟨(Bool.or_false _).symm, (Bool.or_false _).symm⟩
  | cons c cs ih =>
    cases hturn : c.turn t with
    | none =>
      rw [run_wait hturn]
      exact ih t
    | some rt =>
      have heffect := turn_effect hturn
      rw [run_return hturn, List.any_cons, List.any_cons, ← Bool.or_assoc, ← Bool.or_assoc]
      rw [(ih rt.2).1, (ih rt.2).2, heffect.inputShut, heffect.closed]
      exact ⟨rfl, rfl⟩

theorem run_split {before after : List Return} (h : (run t cs).1 = before ++ e :: after) :
    ∃ ds t', (run t ds).1 = before ∧ e.call.turn (run t ds).2 = some (e.result, t') := by
  induction cs generalizing t before with
  | nil => exact absurd h (List.append_ne_nil_of_right_ne_nil _ (List.cons_ne_nil _ _)).symm
  | cons c cs ih =>
    cases hturn : c.turn t with
    | none =>
      rw [run_wait hturn] at h
      exact ih h
    | some rt =>
      rw [run_return hturn] at h
      cases before with
      | nil =>
        obtain ⟨rfl, -⟩ := List.cons.inj h
        exact ⟨[], rt.2, rfl, hturn⟩
      | cons b before =>
        obtain ⟨rfl, hrest⟩ := List.cons.inj h
        obtain ⟨ds, t', hlog, hnext⟩ := ih hrest
        refine ⟨c :: ds, t', ?_, ?_⟩
        · rw [run_return hturn, hlog]
        · rw [run_return hturn]
          exact hnext

end Run

/-! ## Goroutines -/

/-- A terminal, the call each goroutine is in, and the calls that have returned. -/
structure State (ι : Type) where
  term : Terminal
  calls : ι → Option Call
  log : List Return

variable {ι : Type} [DecidableEq ι]

def init : State ι := { term := Terminal.new, calls := fun _ => none, log := [] }

/-- The goroutine `i` is back from its call. -/
def State.leave (s : State ι) (i : ι) : State ι := { s with calls := Function.update s.calls i none }

inductive Step : State ι → State ι → Prop
  | enter {s : State ι} {i : ι} (c : Call) : s.calls i = none →
      Step s { s with calls := Function.update s.calls i (some c) }
  | turn {s : State ι} {i : ι} {c : Call} {r : Transfer} {t : Terminal} : s.calls i = some c →
      c.turn s.term = some (r, t) →
      Step s { s.leave i with term := t, log := s.log ++ [⟨c, s.term.echo, r⟩] }
  | wait {s : State ι} {i : ι} {c : Call} : s.calls i = some c → c.turn s.term = none → Step s s
  /-- The context of a call that waits has ended; it returns no byte. -/
  | giveUp {s : State ι} {i : ι} {c : Call} : s.calls i = some c → c.waits = true → Step s (s.leave i)

inductive Reach : State ι → Prop
  | init : Reach init
  | step {s t : State ι} : Reach s → Step s t → Reach t

theorem Reach.turns {s : State ι} (h : Reach s) : ∃ cs, run Terminal.new cs = (s.log, s.term) := by
  induction h with
  | init => exact ⟨[], rfl⟩
  | step _ hstep ih =>
    obtain ⟨cs, hcs⟩ := ih
    cases hstep with
    | enter | wait | giveUp => exact ⟨cs, hcs⟩
    | turn hcall hturn =>
      rename_i s i c r t
      refine ⟨cs ++ [c], ?_⟩
      have hrun : run Terminal.new (cs ++ [c]) = _ := run_concat_return (by rw [hcs]; exact hturn)
      rw [hrun, hcs]

/-- **Terminal queues.**  In every interleaving the bytes returned by `ReadInput` and the queued
input are the data accepted by `WriteInput`; the bytes returned by `ReadOutput` and `DrainOutput`
and the queued output are the data accepted by `WriteOutput` and echoed from `WriteInput`; input is
accepted, whole, until either close has happened, output until `Close`. -/
theorem queues_conserve {s : State ι} (h : Reach s) :
    taken s.log ++ s.term.input = typed s.log ∧
      shown s.log ++ s.term.output = printed s.log ∧
      ∀ before e after, s.log = before ++ e :: after →
        (∀ data, e.call = .writeInput data → e.result = answer data (before.any (·.call.shutsInput))) ∧
        ∀ data, e.call = .writeOutput data → e.result = answer data (before.any (·.call = .close)) := by
  obtain ⟨cs, hcs⟩ := h.turns
  have hbalanced := run_balanced Terminal.new cs
  rw [hcs] at hbalanced
  refine ⟨hbalanced.1, hbalanced.2, fun before e after hlog => ?_⟩
  have hrun : (run Terminal.new cs).1 = before ++ e :: after := by rw [hcs, hlog]
  obtain ⟨ds, t', hbefore, hturn⟩ := run_split hrun
  obtain ⟨hinput, houtput⟩ := run_shut Terminal.new ds
  rw [hbefore] at hinput houtput
  constructor
  · intro data hcall
    rw [hcall, Call.turn, Option.some.injEq] at hturn
    have hanswer := writeInput_answer (run Terminal.new ds).2 data
    rw [hturn, hinput] at hanswer
    exact hanswer
  intro data hcall
  rw [hcall, Call.turn, Option.some.injEq] at hturn
  have hanswer := writeOutput_answer (run Terminal.new ds).2 data
  rw [hturn, houtput] at hanswer
  exact hanswer

/-- Two goroutines: a read of one byte that has to wait, and a write of a byte and a line end. -/
theorem queues_conserve_two : ∃ s : State Bool, Reach s ∧ s.term.input = [10] ∧ typed s.log = [0x61, 10] ∧
    taken s.log ++ s.term.input = typed s.log ∧ shown s.log ++ s.term.output = printed s.log := by
  have hread := Reach.step .init (.enter (i := true) (.readInput 1) rfl)
  have hwait := Reach.step hread (.wait (i := true) rfl rfl)
  have hwrite := Reach.step hwait (.enter (i := false) (.writeInput [0x61, 10]) rfl)
  have hwritten := Reach.step hwrite (.turn (i := false) rfl rfl)
  have hreach := Reach.step hwritten (.turn (i := true) rfl rfl)
  obtain ⟨hinput, houtput, -⟩ := queues_conserve hreach
  exact ⟨_, hreach, rfl, rfl, hinput, houtput⟩

end IshGo.Pty
