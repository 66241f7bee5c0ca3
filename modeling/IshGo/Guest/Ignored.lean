/-
# `IshGo.Guest.Ignored` — ignored signals

A signal is ignored if its action is `SIG_IGN` (`Handler == 1`), or by default if it is 17, 23 or
28.  `Process.Step` knows the second way only: a signal with `Handler == 1` is delivered as if `1`
were the address of a handler.
-/
import IshGo.Guest.Exit
import IshGo.Guest.Marked
import IshGo.Guest.Trace
import IshGo.Kernel.SignalFrame

namespace IshGo.Guest

open I386 Kernel Lib

variable {a : SignalAction}
variable {w v : World}

/-- What is done to a process: a call of `Step`, or a signal that is queued. -/
inductive Drive where
  | step
  | queue (signal : Nat)
  deriving DecidableEq, Repr

def Ignores (n : Nat) (action : SignalAction) : Prop :=
  action.handler = 1 ∨ (action.handler = 0 ∧ World.ignored n = true)

namespace World

/-! ## Definitions -/

/-- `queueSignal`, for process `i`. -/
def queueSignal (w : World) (i signal : Nat) : World :=
  w.setProc i { w.proc i with kern := (w.proc i).kern.queueSignal signal }

/-- The signal `n` is not pending for process `i`. -/
def without (n i : Nat) (w : World) : World := w.leave i ((w.enter i).without n)

/-- The process as it is when `Step` takes a signal. -/
def started (w : World) (env : Env) (i : Nat) : World :=
  match (w.proc i).state with
  | .exited | .faulted => w
  | .blocked =>
    let r := w.tryResumeBlocked env i
    if r.1 then r.2.setState i .running else w
  | .ready | .running => w.setState i .running

/-- The signal that `Step` takes. -/
def taken (w : World) (env : Env) (i : Nat) : Option (Nat × SignalAction) :=
  match (w.proc i).state with
  | .exited | .faulted => none
  | .blocked =>
    let r := w.tryResumeBlocked env i
    if r.1 then (r.2.takeNext i).1 else none
  | .ready | .running => (w.takeNext i).1

/-- `Step` takes the signal `n`. -/
def takes (w : World) (env : Env) (i n : Nat) : Bool := (w.taken env i).map (·.1) = some n

def drive (w : World) (env : Env) (i : Nat) : Drive → World
  | .step => (w.stepProcess env i).2
  | .queue k => w.queueSignal i k

section Runs
variable (env : Env) (i n : Nat)

/-- Without `n`, and without the steps that take it. -/
def kept : World → List Drive → List Drive
  | _, [] => []
  | w, .step :: es =>
    if w.takes env i n then kept (w.drive env i .step) es
    else .step :: kept (w.drive env i .step) es
  | w, .queue k :: es =>
    if k = n then kept (w.drive env i (.queue k)) es
    else .queue k :: kept (w.drive env i (.queue k)) es

/-- How the steps end that do not take `n`, and what they leave, but for whether `n` is pending. -/
def seen : World → List Drive → List (Outcome × World)
  | _, [] => []
  | w, .step :: es =>
    if w.takes env i n then seen (w.drive env i .step) es
    else markResult (signalBit n) i (w.stepProcess env i) :: seen (w.drive env i .step) es
  | w, .queue k :: es => seen (w.drive env i (.queue k)) es

/-- Every step that takes `n` finds that the default action is to ignore it. -/
def Discards : World → List Drive → Prop
  | _, [] => True
  | w, .step :: es =>
    (∀ t ∈ w.taken env i, t.1 = n → t.2.handler = 0 ∧ ignored n = true) ∧
      Discards (w.drive env i .step) es
  | w, .queue k :: es => Discards (w.drive env i (.queue k)) es

instance : (w : World) → (es : List Drive) → Decidable (Discards env i n w es)
  | _, [] => isTrue trivial
  | w, .step :: es =>
    have := instDecidableDiscards (w.drive env i .step) es
    inferInstanceAs (Decidable (_ ∧ _))
  | w, .queue k :: es => instDecidableDiscards (w.drive env i (.queue k)) es

/-- What is seen if `n` is never pending when a step is made. -/
def quietly : World → List Drive → List (Outcome × World)
  | _, [] => []
  | w, .step :: es =>
    let r := ((w.started env i).without n i).stepProcess env i
    markResult (signalBit n) i r :: quietly r.2 es
  | w, .queue k :: es => quietly (w.drive env i (.queue k)) es

end Runs

/-- CPU, memory, mask, descriptors and exit state of process `i` are the same. -/
structure Unchanged (w w' : World) (i : Nat) : Prop where
  cpu : (w'.proc i).cpu = (w.proc i).cpu
  mem : (w'.enter i).mem = (w.enter i).mem
  mask : (w'.proc i).kern.signalMask = (w.proc i).kern.signalMask
  files : w'.files i = w.files i
  state : (w'.proc i).state = (w.proc i).state
  exited : (w'.proc i).kern.exited = (w.proc i).kern.exited
  exitCode : (w'.proc i).exitCode = (w.proc i).exitCode

/-! ## With the signal and without it -/

section Bit
variable {env : Env} {i n : Nat}

theorem enter_without : (w.without n i).enter i = (w.enter i).without n := enter_leave_self

theorem mark_without_signal (hn : IsSignal n) :
    (w.without n i).mark (signalBit n) i = w.mark (signalBit n) i := by
  rw [without, mark_leave, mark_without hn, ← mark_leave, leave_enter]

theorem without_mark_signal (hn : IsSignal n) : (w.mark (signalBit n) i).without n i = w.without n i := by
  rw [without, enter_mark, leave_mark, without_mark hn, without]

theorem without_eq_of_mark (hn : IsSignal n)
    (h : v.mark (signalBit n) i = w.mark (signalBit n) i) : v.without n i = w.without n i := by
  rw [← without_mark_signal hn, h, without_mark_signal hn]

theorem pending_cases (hn : IsSignal n) (w : World) (i : Nat) :
    w.mark (signalBit n) i = w ∨ w.without n i = w := by
  cases hpending : hasSignal (w.enter i).kern.pendingSignals n with
  | true =>
    refine Or.inl ?_
    rw [← leave_enter (w := w) (i := i), mark_leave, mark_of_pending hn hpending]
  | false =>
    refine Or.inr ?_
    rw [without, without_of_clear hn hpending, leave_enter]

theorem queueSignal_eq (hn : IsSignal n) : w.queueSignal i n = w.mark (signalBit n) i := by
  have hqueue : (w.proc i).kern.queueSignal n = (w.proc i).kern.mark (signalBit n) :=
    if_neg (by have := hn.1; have := hn.2; omega)
  rw [queueSignal, hqueue]
  rfl

theorem queueSignal_none {k : Nat} (hk : ¬ IsSignal k) : w.queueSignal i k = w := by
  have hqueue : (w.proc i).kern.queueSignal k = (w.proc i).kern :=
    if_pos (by unfold IsSignal at hk; omega)
  rw [queueSignal, hqueue]
  have hset : w.procs.set i (w.proc i) = w.procs := Heap.set_cell w.procs i
  simp only [setProc, hset]

theorem mark_mark (m : U64) : (w.mark m i).mark m i = w.mark m i := by
  have hkern (k : Kernel) : (k.mark m).mark m = k.mark m := by
    simp only [Kernel.mark, BitVec.or_assoc, BitVec.or_self]
  have hproc : ((w.proc i).mark m).mark m = (w.proc i).mark m := by
    simp only [Process.mark, hkern]
  rw [mark, proc_mark_self, hproc, mark, setProc_setProc]

theorem mark_comm (m m' : U64) : (w.mark m i).mark m' i = (w.mark m' i).mark m i := by
  refine mark_own (g := Process.mark m') fun p => ?_
  simp only [Process.mark, Kernel.mark, BitVec.or_assoc, BitVec.or_comm m m']

end Bit

/-! ## No process goes away -/

theorem next_wait4 (w : World) (i : Nat) (requested statusAddr options : U32) :
    (w.wait4 i requested statusAddr options).2.procs.next = w.procs.next := by
  unfold wait4
  split
  · rfl
  split
  · split
    · rfl
    · exact (Quiet.blockWait4 w i _).next
  rename_i pid t _ _
  obtain ⟨mems, heq⟩ := w.storeWord_eq (w.proc i).space true statusAddr
    (((w.proc t.process).exitCode &&& 0xff) <<< 8)
  unfold reap
  dsimp only
  rw [heq]
  split
  · rfl
  · rfl

theorem Leads.next_le {w w' : World} (h : Leads w w') : w.procs.next ≤ w'.procs.next := by
  obtain ⟨es, htrace⟩ := h
  induction htrace with
  | refl => exact Nat.le_refl _
  | quiet _ hquiet ih => exact ih.trans_eq hquiet.next.symm
  | @fork es v pid _ ih =>
    rcases v.fork_cases pid with heq | ⟨k, _, heq⟩
    · rw [heq]
      exact ih
    · rw [heq]
      exact ih.trans (Nat.le_succ _)
  | @clone es v pid caller flags childStack parentTID childTID tls _ ih =>
    rcases v.clone_cases pid caller flags childStack parentTID childTID tls with
      ⟨_, _, _, _, heq⟩ | ⟨_, _, _, heq⟩
    · rw [heq]
      exact ih
    · rw [heq]
      exact ih.trans (Nat.le_succ _)
  | wait4 i requested statusAddr options _ ih => exact ih.trans_eq (next_wait4 _ i _ _ _).symm

/-! ## Starting a process -/

section Start
variable {env : Env} {i n : Nat}

theorem state_setState (state : PState) : ((w.setState i state).proc i).state = state :=
  congrArg Process.state (Heap.cell_set w.procs i _)

theorem setState_setState (state state' : PState) :
    (w.setState i state).setState i state' = w.setState i state' := by
  have hproc : (w.setState i state).proc i = { w.proc i with state := state } :=
    Heap.cell_set w.procs i _
  rw [setState, hproc, setState, setProc_setProc]
  rfl

theorem setState_self {state : PState} (h : (w.proc i).state = state) : w.setState i state = w := by
  have hset : w.procs.set i (w.proc i) = w.procs := Heap.set_cell w.procs i
  rw [setState, ← h]
  simp only [setProc, hset]

theorem takeNext_running : (w.setState i .running).takeNext i = w.takeNext i := by
  unfold takeNext
  rw [setState_setState]

theorem runProcess_running : (w.setState i .running).runProcess env i = w.runProcess env i := by
  unfold runProcess
  rw [takeNext_running]

/-- A process that does not run, and one that does. -/
theorem started_cases (w : World) (env : Env) (i : Nat) :
    ((w.proc i).state ≠ .running ∧ w.started env i = w ∧ w.taken env i = none) ∨
      ∃ v, w.started env i = v.setState i .running ∧ w.taken env i = (v.takeNext i).1 ∧
        w.stepProcess env i = v.runProcess env i ∧ Leads w v := by
  unfold started taken stepProcess
  cases hstate : (w.proc i).state with
  | exited | faulted => exact Or.inl ⟨nofun, rfl, rfl⟩
  | blocked =>
    dsimp only
    split
    · exact Or.inr ⟨_, rfl, rfl, rfl, (turns_leads env w).tryResumeBlocked (Quiet.refl w).leads⟩
    · exact Or.inl ⟨nofun, rfl, rfl⟩
  | ready | running => exact Or.inr ⟨w, rfl, rfl, rfl, (Quiet.refl w).leads⟩

theorem started_running (h : (w.proc i).state = .running) : w.started env i = w := by
  unfold started
  rw [h]
  exact setState_self h

theorem started_started : (w.started env i).started env i = w.started env i := by
  rcases started_cases w env i with ⟨_, heq, _⟩ | ⟨v, heq, _⟩
  · rw [heq, heq]
  · rw [heq]
    exact started_running (state_setState .running)

theorem stepProcess_started : (w.started env i).stepProcess env i = w.stepProcess env i := by
  rcases started_cases w env i with ⟨_, heq, _⟩ | ⟨v, heq, _, hstep, _⟩
  · rw [heq]
  · rw [heq, hstep, ← runProcess_running (w := v), stepProcess, state_setState]

theorem taken_started : (w.started env i).taken env i = w.taken env i := by
  rcases started_cases w env i with ⟨_, heq, _⟩ | ⟨v, heq, htaken, _⟩
  · rw [heq]
  · rw [heq, htaken, ← takeNext_running (w := v), taken, state_setState]

theorem started_next : w.procs.next ≤ (w.started env i).procs.next := by
  rcases started_cases w env i with ⟨_, heq, _⟩ | ⟨v, heq, _, _, hleads⟩
  · rw [heq]
  · rw [heq]
    exact hleads.next_le

theorem started_mark (m : U64) : (w.mark m i).started env i = (w.started env i).mark m i := by
  unfold started
  rw [proc_mark (·.state) (fun _ => rfl)]
  cases (w.proc i).state with
  | exited => rfl
  | faulted => rfl
  | blocked =>
    rw [mark_tryResumeBlocked]
    obtain ⟨resumed, v⟩ := w.tryResumeBlocked env i
    cases resumed with
    | true => exact mark_setState .running
    | false => rfl
  | ready | running => exact mark_setState .running

theorem taken_pending (h : w.taken env i = some (n, a)) :
    ∃ v : World, w.started env i = v.setState i .running ∧ (v.takeNext i).1 = some (n, a) ∧
      w.stepProcess env i = v.runProcess env i ∧ ((w.started env i).enter i).Available n := by
  rcases started_cases w env i with ⟨_, _, hnone⟩ | ⟨v, heq, htaken, hstep, _⟩
  · rw [hnone] at h
    cases h
  · refine ⟨v, heq, htaken.symm.trans h, hstep, ?_⟩
    rw [heq]
    exact (takePendingSignal_some.mp (htaken.symm.trans h)).1

theorem takes_iff : w.takes env i n = true ↔ ∃ a, w.taken env i = some (n, a) := by
  unfold takes
  cases w.taken env i with
  | none => simp
  | some t =>
    obtain ⟨k, a⟩ := t
    simp

theorem not_taken (h : w.takes env i n = false) (a : SignalAction) : w.taken env i ≠ some (n, a) :=
  fun htaken => by rw [takes_iff.mpr ⟨a, htaken⟩] at h; cases h

end Start

/-! ## A step -/

section Step
variable {env : Env} {i n : Nat}

theorem takeNext_mark (hn : IsSignal n)
    (hother : ∀ a, ((w.mark (signalBit n) i).takeNext i).1 ≠ some (n, a)) :
    (w.mark (signalBit n) i).takeNext i = markResult (signalBit n) i (w.takeNext i) := by
  unfold takeNext at hother ⊢
  dsimp only at hother ⊢
  rw [mark_setState, enter_mark] at hother ⊢
  rw [takePendingSignal_mark hn hother, leave_mark, ← mark_leave]
  rfl

theorem runProcess_mark (hsvc : env.services.MissesSignals) (hn : IsSignal n)
    (hi : i < w.procs.next)
    (hother : ∀ a, ((w.mark (signalBit n) i).takeNext i).1 ≠ some (n, a)) :
    (w.mark (signalBit n) i).runProcess env i =
      markResult (signalBit n) i (w.runProcess env i) := by
  have hnext : i < (w.takeNext i).2.procs.next := hi
  unfold runProcess
  rw [takeNext_mark hn hother]
  generalize w.takeNext i = r at hnext
  obtain ⟨t, v⟩ := r
  cases t with
  | none => exact mark_runInstruction env hsvc hnext
  | some t => exact mark_takeSignal t.1 t.2

/-- A step that does not take `n` is the same whether `n` is pending or not. -/
theorem stepProcess_mark (hsvc : env.services.MissesSignals) (hn : IsSignal n)
    (hi : i < w.procs.next) (hother : ∀ a, (w.mark (signalBit n) i).taken env i ≠ some (n, a)) :
    (w.mark (signalBit n) i).stepProcess env i =
      markResult (signalBit n) i (w.stepProcess env i) := by
  unfold taken at hother
  unfold stepProcess
  rw [proc_mark (·.state) (fun _ => rfl)] at hother ⊢
  cases hstate : (w.proc i).state with
  | exited => rfl
  | faulted => rfl
  | blocked =>
    have hnext := ((turns_leads env w).tryResumeBlocked (i := i) (Quiet.refl w).leads).next_le
    rw [hstate] at hother
    rw [mark_tryResumeBlocked] at hother ⊢
    generalize w.tryResumeBlocked env i = r at hother hnext
    obtain ⟨resumed, v⟩ := r
    cases resumed with
    | true => exact runProcess_mark hsvc hn (hi.trans_le hnext) hother
    | false => rfl
  | ready =>
    rw [hstate] at hother
    exact runProcess_mark hsvc hn hi hother
  | running =>
    rw [hstate] at hother
    exact runProcess_mark hsvc hn hi hother

/-- A step that takes `n` by default only discards it. -/
theorem stepProcess_discard (htaken : w.taken env i = some (n, a))
    (hdefault : a.handler = 0) (hignored : ignored n = true) :
    w.stepProcess env i = (.ok, (w.started env i).without n i) := by
  obtain ⟨v, hstarted, hnext, hstep, _⟩ := taken_pending htaken
  have htake : ((v.setState i .running).enter i).takePendingSignal.1 = some (n, a) := hnext
  have hstate : (v.takeNext i).2 = (v.setState i .running).without n i :=
    congrArg ((v.setState i .running).leave i) (takePendingSignal_without htake)
  rw [hstep, hstarted, runProcess, hnext, hstate]
  show takeSignal _ i n a = _
  rw [takeSignal, if_pos hdefault, if_pos hignored]

/-- A process that is started stays so without `n`. -/
theorem started_without (hn : IsSignal n) :
    ((w.started env i).without n i).started env i = (w.started env i).without n i := by
  rcases started_cases w env i with ⟨hidle, heq, _⟩ | ⟨v, heq, _⟩
  · rw [heq]
    rcases started_cases (w.without n i) env i with ⟨_, hsame, _⟩ | ⟨v, hrunning, _⟩
    · exact hsame
    -- it would then be running with `n` as well
    have hmark : (v.setState i .running).mark (signalBit n) i = w.mark (signalBit n) i := by
      rw [← hrunning, ← started_mark, mark_without_signal hn, started_mark, heq]
    have hstate : ((w.mark (signalBit n) i).proc i).state = .running := by
      rw [← hmark, proc_mark (·.state) (fun _ => rfl), state_setState]
    rw [proc_mark (·.state) (fun _ => rfl)] at hstate
    exact absurd hstate hidle
  · have hstate : ((w.started env i).without n i |>.proc i).state = .running := by
      rw [without, proc_leave_self, heq]
      exact state_setState .running
    exact started_running hstate

theorem mark_of_taken (hn : IsSignal n) (htaken : w.taken env i = some (n, a)) :
    (w.started env i).mark (signalBit n) i = w.started env i := by
  obtain ⟨_, _, _, _, hav⟩ := taken_pending htaken
  rw [← leave_enter (w := w.started env i) (i := i), mark_leave, mark_of_pending hn hav.2.1]

/-- But for whether `n` is pending, a step that does not take it is one made without it. -/
theorem stepProcess_without (hsvc : env.services.MissesSignals) (hn : IsSignal n)
    (hi : i < w.procs.next) (hother : ∀ a, w.taken env i ≠ some (n, a)) :
    markResult (signalBit n) i (w.stepProcess env i) =
      markResult (signalBit n) i (((w.started env i).without n i).stepProcess env i) := by
  rw [← stepProcess_started (w := w)]
  rcases pending_cases hn (w.started env i) i with hpending | hclear
  · have hwith : w.started env i = ((w.started env i).without n i).mark (signalBit n) i := by
      rw [mark_without_signal hn, hpending]
    have hnext : i < ((w.started env i).without n i).procs.next := hi.trans_le started_next
    have hother' (a : SignalAction) :
        (((w.started env i).without n i).mark (signalBit n) i).taken env i ≠ some (n, a) := by
      rw [← hwith, taken_started]
      exact hother a
    have hstep := stepProcess_mark hsvc hn hnext hother'
    rw [← hwith] at hstep
    rw [hstep]
    exact Prod.ext rfl (mark_mark _)
  · rw [hclear]

theorem drive_next (d : Drive) : w.procs.next ≤ (w.drive env i d).procs.next := by
  cases d with
  | step => exact ((turns_leads env w).stepProcess (i := i) (Quiet.refl w).leads).next_le
  | queue k => exact Nat.le_refl _

end Step

/-! ## Runs -/

section Run
variable {env : Env} {i n : Nat}

/-- What is seen does not depend on whether `n` is pending. -/
theorem quietly_congr (hn : IsSignal n)
    (h : (v.started env i).mark (signalBit n) i = (w.started env i).mark (signalBit n) i)
    (ks : List Drive) : quietly env i n v ks = quietly env i n w ks := by
  induction ks generalizing v w with
  | nil => rfl
  | cons d ks ih =>
    cases d with
    | step => rw [quietly, quietly, without_eq_of_mark hn h]
    | queue k =>
      refine ih ?_
      by_cases hk : IsSignal k
      · simp only [drive, queueSignal_eq hk, started_mark]
        rw [mark_comm, h, mark_comm]
      · simp only [drive, queueSignal_none hk]
        exact h

theorem started_congr (h : v.mark (signalBit n) i = w.mark (signalBit n) i) :
    (v.started env i).mark (signalBit n) i = (w.started env i).mark (signalBit n) i := by
  rw [← started_mark, h, started_mark]

/-- A run in which `n` is only discarded shows what one without it shows. -/
theorem Discards.seen_eq (hsvc : env.services.MissesSignals) (hn : IsSignal n)
    (hi : i < w.procs.next) {es : List Drive} (h : Discards env i n w es) :
    seen env i n w es = quietly env i n w (kept env i n w es) := by
  induction es generalizing w with
  | nil => rfl
  | cons d es ih =>
    have hnext : i < (w.drive env i d).procs.next := hi.trans_le (drive_next d)
    cases d with
    | step =>
      have hrest := ih hnext h.2
      cases htakes : w.takes env i n with
      | true =>
        obtain ⟨a, htaken⟩ := takes_iff.mp htakes
        obtain ⟨hdefault, hignored⟩ := h.1 (n, a) htaken rfl
        have hstep : w.drive env i .step = (w.started env i).without n i :=
          congrArg Prod.snd (stepProcess_discard htaken hdefault hignored)
        rw [seen, kept, if_pos htakes, if_pos htakes, hrest]
        refine quietly_congr hn ?_ _
        rw [hstep, started_without hn, mark_without_signal hn]
      | false =>
        have hsame := stepProcess_without hsvc hn hi (not_taken htakes)
        rw [seen, kept, if_neg (by rw [htakes]; decide), if_neg (by rw [htakes]; decide), hrest,
          quietly, hsame]
        refine congrArg _ (quietly_congr hn (started_congr ?_) _)
        exact congrArg Prod.snd hsame
    | queue k =>
      have hrest := ih hnext h
      rw [seen, kept, hrest]
      by_cases hk : k = n
      · subst hk
        rw [if_pos rfl]
        refine quietly_congr hn (started_congr ?_) _
        rw [drive, queueSignal_eq hn, mark_mark]
      · rw [if_neg hk]
        rfl

/-- The first world may have `n` pending where the second has not. -/
def Ahead (env : Env) (i n : Nat) (v w : World) : Prop :=
  v.started env i = w.started env i ∨ v.started env i = (w.started env i).mark (signalBit n) i

theorem Ahead.of_taken (hn : IsSignal n) (h : Ahead env i n v w)
    (htaken : w.taken env i = some (n, a)) : v.started env i = w.started env i :=
  h.elim id fun heq => heq.trans (mark_of_taken hn htaken)

theorem taken_congr (h : v.started env i = w.started env i) : v.taken env i = w.taken env i := by
  rw [← taken_started, h, taken_started]

/-- `n` is queued for the first only. -/
theorem Ahead.queue_left (hn : IsSignal n) (h : Ahead env i n v w) :
    Ahead env i n (v.drive env i (.queue n)) w := by
  refine Or.inr ?_
  rw [drive, queueSignal_eq hn, started_mark]
  rcases h with heq | heq
  · rw [heq]
  · rw [heq, mark_mark]

theorem Ahead.queue (h : Ahead env i n v w) (k : Nat) :
    Ahead env i n (v.drive env i (.queue k)) (w.drive env i (.queue k)) := by
  by_cases hsignal : IsSignal k
  · unfold Ahead
    simp only [drive, queueSignal_eq hsignal, started_mark]
    rcases h with heq | heq
    · exact Or.inl (by rw [heq])
    · exact Or.inr (by rw [heq, mark_comm])
  · simp only [drive, queueSignal_none hsignal]
    exact h

/-- A step that takes `n` from neither. -/
theorem Ahead.step (hsvc : env.services.MissesSignals) (hn : IsSignal n) (hw : i < w.procs.next)
    (h : Ahead env i n v w) (hother : ∀ a, v.taken env i ≠ some (n, a)) :
    Ahead env i n (v.drive env i .step) (w.drive env i .step) := by
  unfold drive
  rw [← stepProcess_started (w := v), ← stepProcess_started (w := w)]
  rcases h with heq | heq
  · rw [heq]
    exact Or.inl rfl
  have hother' (a : SignalAction) :
      ((w.started env i).mark (signalBit n) i).taken env i ≠ some (n, a) := by
    rw [← heq, taken_started]
    exact hother a
  rw [heq, stepProcess_mark hsvc hn (hw.trans_le started_next) hother']
  exact Or.inr (started_mark _)

/-- A step that discards `n` from the first only: it is pending there, and not in the second. -/
theorem Ahead.discard_left (hn : IsSignal n) (h : Ahead env i n v w)
    (hne : v.started env i ≠ w.started env i)
    (hstep : v.drive env i .step = (v.started env i).without n i) :
    Ahead env i n (v.drive env i .step) w := by
  have hmark : v.started env i = (w.started env i).mark (signalBit n) i := h.resolve_left hne
  have hclear : (w.started env i).without n i = w.started env i :=
    (pending_cases hn (w.started env i) i).resolve_left fun hpending => hne (hmark.trans hpending)
  refine Or.inl ?_
  rw [hstep, hmark, without_mark_signal hn, hclear, started_started]

/-- The step of the first is a step of the second too, or it only discards `n`. -/
theorem Ahead.step_cases (hsvc : env.services.MissesSignals) (hn : IsSignal n)
    (hw : i < w.procs.next) (h : Ahead env i n v w)
    (hdiscards : ∀ t ∈ v.taken env i, t.1 = n → t.2.handler = 0 ∧ ignored n = true) :
    (w.takes env i n = v.takes env i n ∧
      (∀ t ∈ w.taken env i, t.1 = n → t.2.handler = 0 ∧ ignored n = true) ∧
      Ahead env i n (v.drive env i .step) (w.drive env i .step)) ∨
    (v.takes env i n = true ∧ Ahead env i n (v.drive env i .step) w) := by
  by_cases hsame : v.started env i = w.started env i
  · have htaken := taken_congr hsame
    refine Or.inl ⟨by rw [takes, takes, htaken], htaken ▸ hdiscards, Or.inl ?_⟩
    rw [drive, drive, ← stepProcess_started (w := v), hsame, stepProcess_started]
  -- `n` is pending in the first only, so the second does not take it
  have hother (a : SignalAction) : w.taken env i ≠ some (n, a) :=
    fun htaken => hsame (h.of_taken hn htaken)
  have hnot : w.takes env i n = false :=
    Bool.eq_false_iff.mpr fun htakes => (takes_iff.mp htakes).elim hother
  cases htakes : v.takes env i n with
  | false =>
    refine Or.inl ⟨hnot, ?_, h.step hsvc hn hw (not_taken htakes)⟩
    rintro ⟨_, a⟩ ha rfl
    exact absurd ha (hother a)
  | true =>
    obtain ⟨a, htaken⟩ := takes_iff.mp htakes
    obtain ⟨hdefault, hignored⟩ := hdiscards (n, a) htaken rfl
    refine Or.inr ⟨rfl, h.discard_left hn hsame ?_⟩
    exact congrArg Prod.snd (stepProcess_discard htaken hdefault hignored)

theorem Discards.exists_kept (hsvc : env.services.MissesSignals) (hn : IsSignal n)
    (hw : i < w.procs.next) {es : List Drive} (h : Discards env i n v es)
    (hahead : Ahead env i n v w) :
    ∃ es', .queue n ∉ es' ∧ Discards env i n w es' ∧ kept env i n w es' = kept env i n v es := by
  induction es generalizing v w with
  | nil => exact ⟨[], List.not_mem_nil, trivial, rfl⟩
  | cons d es ih =>
    have hnext : i < (w.drive env i d).procs.next := hw.trans_le (drive_next d)
    have hcons {es' : List Drive} (hd : Drive.queue n ≠ d) (hfree : .queue n ∉ es') :
        .queue n ∉ d :: es' :=
      fun hmem => (List.mem_cons.mp hmem).elim hd hfree
    cases d with
    | queue k =>
      by_cases hk : k = n
      · subst hk
        obtain ⟨es', hfree, hdiscards, hkept⟩ := ih hw h (hahead.queue_left hn)
        refine ⟨es', hfree, hdiscards, ?_⟩
        rw [hkept, kept, if_pos rfl]
      obtain ⟨es', hfree, hdiscards, hkept⟩ := ih hnext h (hahead.queue k)
      have hne : Drive.queue n ≠ .queue k := fun heq => hk (Drive.queue.inj heq).symm
      refine ⟨.queue k :: es', hcons hne hfree, hdiscards, ?_⟩
      rw [kept, kept, if_neg hk, if_neg hk, hkept]
    | step =>
      rcases hahead.step_cases hsvc hn hw h.1 with ⟨htakes, hhead, hahead⟩ | ⟨htakes, hahead⟩
      · obtain ⟨es', hfree, hdiscards, hkept⟩ := ih hnext h.2 hahead
        refine ⟨.step :: es', hcons nofun hfree, ⟨hhead, hdiscards⟩, ?_⟩
        rw [kept, kept, htakes, hkept]
      · obtain ⟨es', hfree, hdiscards, hkept⟩ := ih hw h.2 hahead
        refine ⟨es', hfree, hdiscards, ?_⟩
        rw [hkept, kept, if_pos htakes]

end Run

/-! ## A step that takes an ignored signal -/

section Taken
variable {env : Env} {i n : Nat}

theorem unchanged_without : Unchanged w (w.without n i) i := by
  have hproc : (w.without n i).proc i =
      { w.proc i with kern := ((w.enter i).without n).kern } := proc_leave_self
  have henter := enter_without (w := w) (i := i) (n := n)
  have hfiles : (w.without n i).files i = ((w.without n i).enter i).files := rfl
  refine ⟨?_, ?_, ?_, ?_, ?_, ?_, ?_⟩
  · rw [hproc]
  · rw [henter]
    rfl
  · rw [hproc]
    rfl
  · rw [hfiles, henter]
    rfl
  · rw [hproc]
  · rw [hproc]
    rfl
  · rw [hproc]

theorem not_unchanged_of_handler (htaken : w.taken env i = some (n, a)) (hhandler : a.handler ≠ 0) :
    ¬ Unchanged (w.started env i) (w.stepProcess env i).2 i := by
  obtain ⟨v, hstarted, hnext, hstep, _⟩ := taken_pending htaken
  intro hsame
  rw [hstep, hstarted, runProcess, hnext] at hsame
  change Unchanged _ (takeSignal (v.takeNext i).2 i n a).2 i at hsame
  rw [takeSignal, if_neg hhandler] at hsame
  have hesp : ((v.takeNext i).2.enter i).cpu = ((v.setState i .running).proc i).cpu := by
    have htake : ((v.setState i .running).enter i).takePendingSignal.1 = some (n, a) := hnext
    show ((v.takeNext i).2.proc i).cpu = _
    rw [takeNext, proc_leave_self]
    exact congrArg KState.cpu (takePendingSignal_without htake)
  generalize hr : ((v.takeNext i).2.enter i).deliverSignal n a = r at hsame
  obtain ⟨delivered, t⟩ := r
  cases delivered with
  | error e =>
    have hstate := hsame.state
    rw [state_setState] at hstate
    have hfaulted : ((((v.takeNext i).2.leave i t).faulted i (.signal n e)).2.proc i).state =
        .faulted := congrArg Process.state (Heap.cell_set _ i _)
    exact absurd (hfaulted.symm.trans hstate) (by decide)
  | ok _ =>
    have hcpu := hsame.cpu
    rw [proc_leave_self] at hcpu
    rcases deliverSignal_cases ((v.takeNext i).2.enter i) n a with ⟨_, hno⟩ | ⟨hroom, _, _, _, _, hok⟩
    · rw [hr] at hno
      exact hno rfl
    rw [hr] at hok
    have hbase := (hok rfl).2
    have hle := frameBase_le hroom
    have hcpu' : t.cpu = ((v.takeNext i).2.enter i).cpu := hcpu.trans hesp.symm
    rw [← hbase, hcpu'] at hle
    omega

/-- Of the ways to ignore a signal, `Step` knows the default action only. -/
theorem unchanged_iff (htaken : w.taken env i = some (n, a)) (hignores : Ignores n a) :
    Unchanged (w.started env i) (w.stepProcess env i).2 i ↔ a.handler = 0 := by
  constructor
  · intro hsame
    by_contra hhandler
    exact not_unchanged_of_handler htaken hhandler hsame
  intro hdefault
  rcases hignores with hone | ⟨_, hignored⟩
  · rw [hdefault] at hone
    exact absurd hone (by decide)
  · rw [stepProcess_discard htaken hdefault hignored]
    exact unchanged_without

end Taken

/-- A step that takes an ignored signal leaves CPU, memory, mask, descriptors and exit state alone
exactly if the signal is ignored by default.  If all steps of a run that take `n` find the default
action, the steps that do not take `n` do what they do in the runs in which `n` is not queued. -/
theorem ignored_unnoticed (env : Env) (hsvc : env.services.MissesSignals) {w : World} {i n : Nat}
    (hi : i < w.procs.next) (hn : IsSignal n) :
    (∀ a, w.taken env i = some (n, a) → Ignores n a →
      (Unchanged (w.started env i) (w.stepProcess env i).2 i ↔ a.handler = 0)) ∧
    ∀ es, Discards env i n w es →
      (∃ es', .queue n ∉ es' ∧ Discards env i n w es' ∧ kept env i n w es' = kept env i n w es) ∧
      ∀ es', Discards env i n w es' → kept env i n w es' = kept env i n w es →
        seen env i n w es' = seen env i n w es := by
  refine ⟨fun a htaken hignores => unchanged_iff htaken hignores, fun es hes => ⟨?_, ?_⟩⟩
  · exact hes.exists_kept hsvc hn hi (Or.inl rfl)
  · intro es' hes' hkept
    rw [hes.seen_eq hsvc hn hi, hes'.seen_eq hsvc hn hi, hkept]

/-! ## A process that does nothing -/

theorem idle_missesSignals : idle.services.MissesSignals := fun _ _ => Commutes.pure ()

/-- `NOP` at address `0`, and at `16` an action with `Handler == 1`. -/
def nops : World :=
  let data : U32 → U8 := fun x => if x = 16 then 1 else if x < 16 then 0x90 else 0
  start ⟨CPU.new, { Memory.new 64 with data := data }, 0⟩ none Objects.new

theorem ignored_unnoticed_sigchld :
    seen idle 0 17 nops [.step, .step] =
      seen idle 0 17 nops [.queue 17, .queue 17, .step, .step, .queue 17, .step, .step] := by
  refine ((ignored_unnoticed idle idle_missesSignals (by decide) (by decide)).2 _ ?_).2 _ ?_ ?_
  · decide +kernel
  · decide +kernel
  · decide +kernel

/-- `SIGPIPE` ignored by `SIG_IGN`. -/
def sigIgn : World := nops.leave 0 ((nops.enter 0).rtSigaction 13 16 0 8)

/-- The process faults where it would have gone on. -/
theorem sigpipe_not_ignored :
    Ignores 13 ((sigIgn.enter 0).actions 13) ∧
      (sigIgn.stepProcess idle 0).1 = .ok ∧
      ((sigIgn.stepProcess idle 0).2.proc 0).state = .running ∧
      ((sigIgn.queueSignal 0 13).stepProcess idle 0).1 = .fault ∧
      (((sigIgn.queueSignal 0 13).stepProcess idle 0).2.proc 0).state = .faulted := by
  refine ⟨Or.inl ?_, ?_, ?_, ?_, ?_⟩
  · decide +kernel
  · decide +kernel
  · decide +kernel
  · decide +kernel
  · decide +kernel

end World

end IshGo.Guest
