/-
# `IshGo.Kernel.Pending` — pending signals, and signals that cannot be blocked

A run is any sequence of the operations that touch `pendingSignals` and `signalMask`, with
anything the guest does to its registers and its memory in between.

A signal is `Outstanding` in a history if it has been queued since it was last taken.  The
pending set holds the outstanding signals and no others, so `TakePendingSignal` returns the lowest
that is not masked.
-/
import IshGo.Kernel.Signals
import Mathlib.Data.List.Induction

namespace IshGo.Kernel

open I386 List

variable {es : List SignalEvent} {n : Nat} {s : KState}

/-! ## Runs -/

inductive SignalOp where
  | queue (signal : Nat)
  | kill (pid signal : U32)
  | sigprocmask (how setAddr oldAddr size : U32) (realtime : Bool)
  | rtSigaction (signal actionAddr oldActionAddr size : U32)
  | deliver (signal : Nat) (action : SignalAction)
  | sigreturn
  | take
  /-- What the guest does in between. -/
  | guest (cpu : CPU) (mem : Memory)

inductive SignalEvent where
  | queued (signal : Nat)
  | taken (signal : Nat)
  deriving DecidableEq, Repr

namespace SignalOp

def run (s : KState) : SignalOp → KState
  | queue signal => { s with kern := s.kern.queueSignal signal }
  | kill pid signal => s.kill pid signal
  | sigprocmask how setAddr oldAddr size realtime => s.sigprocmask how setAddr oldAddr size realtime
  | rtSigaction signal actionAddr oldActionAddr size =>
    s.rtSigaction signal actionAddr oldActionAddr size
  | deliver signal action => (s.deliverSignal signal action).2
  | sigreturn => s.rtSigreturn
  | take => s.takePendingSignal.2
  | guest cpu mem => { s with cpu := cpu, mem := mem }

/-- What an operation adds to the history.  `kill` queues nothing if it refuses. -/
def events (s : KState) : SignalOp → List SignalEvent
  | queue signal => [.queued signal]
  | kill pid signal =>
    if (pid = s.kern.pid ∨ pid = 0 ∨ pid = -1) ∧ signal ≤ 64 ∧ signal ≠ 0 then [.queued signal.toNat]
    else []
  | take => s.takePendingSignal.1.elim [] fun r => [.taken r.1]
  | _ => []

def runAll (s : KState) (ops : List SignalOp) : KState := ops.foldl run s

def history (s : KState) : List SignalOp → List SignalEvent
  | [] => []
  | op :: ops => op.events s ++ history (op.run s) ops

end SignalOp

open SignalOp

def Outstanding (es : List SignalEvent) (signal : Nat) : Prop :=
  ∃ before after, es = before ++ .queued signal :: after ∧ .taken signal ∉ after

/-! ## Bits -/

def hasSignal (set : U64) (signal : Nat) : Bool := set.getLsbD (signal - 1)

def IsSignal (signal : Nat) : Prop := 1 ≤ signal ∧ signal ≤ 64

instance (signal : Nat) : Decidable (IsSignal signal) := inferInstanceAs (Decidable (_ ∧ _))

section Bits
variable {set set' : U64} {m : Nat}

theorem hasSignal_bit (hn : IsSignal n) (hm : IsSignal m) : hasSignal (signalBit n) m = decide (m = n) := by
  obtain ⟨hn₁, hn₂⟩ := hn
  obtain ⟨hm₁, hm₂⟩ := hm
  have hbit : signalBit n = BitVec.ofNat 64 (2 ^ (n - 1)) := by
    rw [← Nat.one_shiftLeft]
    rfl
  rw [hasSignal, hbit, BitVec.getLsbD_ofNat, Nat.testBit_two_pow, decide_eq_true (by omega), Bool.true_and]
  exact decide_eq_decide.mpr ⟨by omega, by omega⟩

@[simp] theorem hasSignal_or : hasSignal (set ||| set') n = (hasSignal set n || hasSignal set' n) :=
  BitVec.getLsbD_or

theorem hasSignal_without (hn : IsSignal n) :
    hasSignal (set &&& ~~~ set') n = (hasSignal set n && !hasSignal set' n) := by
  have hlt : n - 1 < 64 := by
    have := hn.2
    omega
  unfold hasSignal
  rw [BitVec.getLsbD_and, BitVec.getLsbD_not, decide_eq_true hlt, Bool.true_and]

@[simp] theorem hasSignal_zero : hasSignal 0 n = false := BitVec.getLsbD_zero

theorem and_signalBit_eq_zero (hn : IsSignal n) : set &&& signalBit n = 0 ↔ hasSignal set n = false := by
  have hbit := hasSignal_bit hn hn
  constructor
  · intro h
    have hand : hasSignal (set &&& signalBit n) n = (hasSignal set n && hasSignal (signalBit n) n) :=
      BitVec.getLsbD_and
    rw [h, hasSignal_zero, hbit, decide_eq_true rfl, Bool.and_true] at hand
    exact hand.symm
  intro h
  refine BitVec.eq_of_getLsbD_eq ?_
  intro i hi
  have hother := hasSignal_bit hn (m := i + 1) ⟨by omega, by omega⟩
  have hset : (signalBit n).getLsbD i = decide (i + 1 = n) := hother
  rw [BitVec.getLsbD_and, hset, show (0 : U64).getLsbD i = false from BitVec.getLsbD_zero]
  by_cases hi : i + 1 = n
  · subst hi
    rw [show set.getLsbD i = false from h, Bool.false_and]
  · rw [decide_eq_false hi, Bool.and_false]

end Bits

/-! ## The loop -/

theorem firstSignal_eq {available : U64} : ∀ {k start : Nat}, 1 ≤ start → start + k ≤ 65 →
    firstSignal available k start = (range' start k).find? (hasSignal available)
  | 0, _, _, _ => rfl
  | k + 1, start, h₁, h₂ => by
      have hhere := @and_signalBit_eq_zero start available ⟨h₁, by omega⟩
      rw [firstSignal, range'_succ, find?_cons, firstSignal_eq (by omega) (by omega)]
      split
      · rename_i hclear
        rw [hhere.mp hclear]
      · rename_i hset
        rw [Bool.of_not_eq_false fun h => hset (hhere.mpr h)]

/-- A signal that `TakePendingSignal` may take. -/
def KState.Available (s : KState) (n : Nat) : Prop :=
  IsSignal n ∧ hasSignal s.kern.pendingSignals n = true ∧ hasSignal s.kern.signalMask n = false

theorem available_iff (hn : IsSignal n) :
    hasSignal (s.kern.pendingSignals &&& ~~~ s.kern.signalMask) n = true ↔ s.Available n := by
  rw [hasSignal_without hn, Bool.and_eq_true, Bool.not_eq_true', KState.Available]
  exact (and_iff_right hn).symm

/-- `TakePendingSignal` takes the lowest signal that is available. -/
theorem takePendingSignal_some {a : SignalAction} :
    s.takePendingSignal.1 = some (n, a) ↔
      s.Available n ∧ (∀ m < n, ¬ s.Available m) ∧ a = s.actions (BitVec.ofNat 32 n) := by
  have hfirst : firstSignal (s.kern.pendingSignals &&& ~~~ s.kern.signalMask) 64 1 = some n ↔
      s.Available n ∧ ∀ m < n, ¬ s.Available m := by
    rw [firstSignal_eq (Nat.le_refl 1) (Nat.le_refl 65), find?_range'_eq_some, mem_range'_1]
    constructor
    · rintro ⟨hbit, ⟨h₁, h₂⟩, hlow⟩
      refine ⟨(available_iff ⟨h₁, by omega⟩).mp hbit, ?_⟩
      intro m hm hav
      have hclear := hlow m hav.1.1 hm
      rw [(available_iff hav.1).mpr hav] at hclear
      cases hclear
    rintro ⟨hav, hlow⟩
    obtain ⟨h₁, h₂⟩ := hav.1
    refine ⟨(available_iff hav.1).mpr hav, ⟨h₁, by omega⟩, ?_⟩
    intro m hm hlt
    rw [Bool.not_eq_true', ← Bool.not_eq_true]
    exact fun hbit => hlow m hlt ((available_iff ⟨hm, by omega⟩).mp hbit)
  rw [← and_assoc, ← hfirst, KState.takePendingSignal]
  cases firstSignal (s.kern.pendingSignals &&& ~~~ s.kern.signalMask) 64 1 with
  | none => simp
  | some k =>
    simp only [Option.some.injEq, Prod.mk.injEq]
    constructor
    · rintro ⟨rfl, rfl⟩
      exact ⟨rfl, rfl⟩
    · rintro ⟨rfl, rfl⟩
      exact ⟨rfl, rfl⟩

theorem takePendingSignal_none : s.takePendingSignal.1 = none ↔ ∀ n, ¬ s.Available n := by
  have hfirst : firstSignal (s.kern.pendingSignals &&& ~~~ s.kern.signalMask) 64 1 = none ↔
      ∀ n, ¬ s.Available n := by
    rw [firstSignal_eq (Nat.le_refl 1) (Nat.le_refl 65), find?_range'_eq_none]
    constructor
    · intro hno n hav
      obtain ⟨h₁, h₂⟩ := hav.1
      have hclear := hno n h₁ (by omega)
      rw [(available_iff hav.1).mpr hav] at hclear
      cases hclear
    · intro hno n h₁ h₂
      rw [Bool.not_eq_true', ← Bool.not_eq_true]
      exact fun hbit => hno n ((available_iff ⟨h₁, by omega⟩).mp hbit)
  rw [← hfirst, KState.takePendingSignal]
  cases firstSignal (s.kern.pendingSignals &&& ~~~ s.kern.signalMask) 64 1 with
  | none => simp
  | some k => simp

theorem takePendingSignal_state {a : SignalAction} (h : s.takePendingSignal.1 = some (n, a)) :
    s.takePendingSignal.2 =
      { s with kern := { s.kern with pendingSignals := s.kern.pendingSignals &&& ~~~ signalBit n } } := by
  unfold KState.takePendingSignal at h ⊢
  split
  · rename_i hnone
    rw [hnone] at h
    cases h
  rename_i k hsome
  rw [hsome] at h
  cases h
  rfl

theorem takePendingSignal_idle (h : s.takePendingSignal.1 = none) : s.takePendingSignal.2 = s := by
  unfold KState.takePendingSignal at h ⊢
  split
  · rfl
  · rename_i k hsome
    rw [hsome] at h
    cases h

/-! ## Histories -/

section Outstanding
variable {m : Nat}

theorem not_outstanding_nil : ¬ Outstanding [] n := by
  rintro ⟨before, after, h, _⟩
  cases before <;> cases h

theorem outstanding_queued : Outstanding (es ++ [.queued n]) m ↔ Outstanding es m ∨ m = n := by
  constructor
  · rintro ⟨before, after, h, hnot⟩
    rcases after.eq_nil_or_concat' with rfl | ⟨after, e, rfl⟩
    · obtain ⟨_, he⟩ := append_inj' h rfl
      cases he
      exact Or.inr rfl
    · rw [← cons_append, ← append_assoc] at h
      obtain ⟨rfl, _⟩ := append_inj' h rfl
      exact Or.inl ⟨before, after, rfl, fun hmem => hnot (mem_append_left _ hmem)⟩
  · rintro (⟨before, after, rfl, hnot⟩ | rfl)
    · refine ⟨before, after ++ [.queued n], by simp, ?_⟩
      simpa using hnot
    · exact ⟨es, [], rfl, not_mem_nil⟩

theorem outstanding_taken : Outstanding (es ++ [.taken n]) m ↔ Outstanding es m ∧ m ≠ n := by
  constructor
  · rintro ⟨before, after, h, hnot⟩
    rcases after.eq_nil_or_concat' with rfl | ⟨after, e, rfl⟩
    · obtain ⟨_, he⟩ := append_inj' h rfl
      cases he
    rw [← cons_append, ← append_assoc] at h
    obtain ⟨rfl, he⟩ := append_inj' h rfl
    cases he
    refine ⟨⟨before, after, rfl, fun hmem => hnot (mem_append_left _ hmem)⟩, ?_⟩
    rintro rfl
    exact hnot (mem_append_right _ (mem_singleton_self _))
  · rintro ⟨⟨before, after, rfl, hnot⟩, hne⟩
    refine ⟨before, after ++ [.taken n], by simp, ?_⟩
    simpa [hne] using hnot

end Outstanding

/-- The pending set holds what is outstanding, and what was taken had been queued. -/
structure Tracks (es : List SignalEvent) (s : KState) : Prop where
  pending : ∀ n, IsSignal n → (hasSignal s.kern.pendingSignals n = true ↔ Outstanding es n)
  counted : ∀ n, IsSignal n →
    es.count (.taken n) + (hasSignal s.kern.pendingSignals n).toNat ≤ es.count (.queued n)

namespace Tracks

variable {s' : KState}

theorem same (h : Tracks es s) (hp : s'.kern.pendingSignals = s.kern.pendingSignals) : Tracks es s' := by
  refine ⟨?_, ?_⟩
  · rw [hp]
    exact h.pending
  · rw [hp]
    exact h.counted

theorem queued (h : Tracks es s) (hp : ∀ m, IsSignal m → hasSignal s'.kern.pendingSignals m =
      (hasSignal s.kern.pendingSignals m || decide (m = n))) : Tracks (es ++ [.queued n]) s' := by
  refine ⟨?_, ?_⟩
  · intro m hm
    rw [hp m hm, Bool.or_eq_true, decide_eq_true_eq, outstanding_queued, h.pending m hm]
  intro m hm
  have hcount := h.counted m hm
  rw [hp m hm, count_append, count_append]
  by_cases hmn : m = n
  · subst hmn
    have hle := Bool.toNat_le (hasSignal s.kern.pendingSignals m || decide True)
    simp only [count_singleton_self, count_singleton, beq_iff_eq, reduceCtorEq, if_false]
    omega
  · simp only [decide_eq_false hmn, Bool.or_false, count_singleton, beq_iff_eq, reduceCtorEq,
      SignalEvent.queued.injEq, Ne.symm hmn, if_false]
    exact hcount

theorem taken (h : Tracks es s) (hn : IsSignal n) (hset : hasSignal s.kern.pendingSignals n = true)
    (hp : s'.kern.pendingSignals = s.kern.pendingSignals &&& ~~~ signalBit n) :
    Tracks (es ++ [.taken n]) s' := by
  have hbit : ∀ m, IsSignal m → hasSignal s'.kern.pendingSignals m =
      (hasSignal s.kern.pendingSignals m && !decide (m = n)) := by
    intro m hm
    rw [hp, hasSignal_without hm, hasSignal_bit hn hm]
  refine ⟨?_, ?_⟩
  · intro m hm
    rw [hbit m hm, Bool.and_eq_true, Bool.not_eq_true', decide_eq_false_iff_not, outstanding_taken,
      h.pending m hm]
  intro m hm
  have hcount := h.counted m hm
  rw [hbit m hm, count_append, count_append]
  by_cases hmn : m = n
  · subst hmn
    rw [hset] at hcount
    simp only [decide_true, Bool.not_true, Bool.and_false, Bool.toNat_false, count_singleton_self,
      count_singleton, beq_iff_eq, reduceCtorEq, if_false]
    exact hcount
  · simp only [decide_eq_false hmn, Bool.not_false, Bool.and_true, count_singleton, beq_iff_eq,
      reduceCtorEq, SignalEvent.taken.injEq, Ne.symm hmn, if_false]
    exact hcount

end Tracks

/-! ## What the operations do to the pending set -/

theorem hasSignal_queueSignal (k : Kernel) (n : Nat) {m : Nat} (hm : IsSignal m) :
    hasSignal (k.queueSignal n).pendingSignals m = (hasSignal k.pendingSignals m || decide (m = n)) := by
  unfold Kernel.queueSignal
  by_cases hn : n = 0 ∨ n > 64
  · have hne : m ≠ n := by
      have := hm.1
      have := hm.2
      omega
    rw [if_pos hn, decide_eq_false hne, Bool.or_false]
  have hn' : IsSignal n := by
    unfold IsSignal
    omega
  rw [if_neg hn]
  show hasSignal (k.pendingSignals ||| signalBit n) m = _
  rw [hasSignal_or, hasSignal_bit hn' hm]

/-- The set that `sigprocmask` reads, if it comes to that. -/
def KState.readMask (s : KState) (setAddr oldAddr size : U32) (realtime : Bool) : Option U64 :=
  let wordSize : U32 := if realtime then 8 else 4
  let r := writeSignalSet s.mem oldAddr s.kern.signalMask wordSize
  if (realtime ∧ size ≠ 8) ∨ r.1 = false ∨ setAddr = 0 then none else readSignalSet r.2 setAddr wordSize

theorem kern_sigprocmask (s : KState) (how setAddr oldAddr size : U32) (realtime : Bool) :
    (s.sigprocmask how setAddr oldAddr size realtime).kern =
      { s.kern with signalMask := ((s.readMask setAddr oldAddr size realtime).bind
          (changeMask how s.kern.signalMask)).getD s.kern.signalMask } := by
  unfold KState.sigprocmask KState.readMask
  by_cases hsize : realtime ∧ size ≠ 8
  · rw [if_pos hsize, if_pos (Or.inl hsize)]
    rfl
  rw [if_neg hsize]
  generalize (if realtime then (8 : U32) else 4) = wordSize
  by_cases hwrite : (writeSignalSet s.mem oldAddr s.kern.signalMask wordSize).1 = false
  · rw [if_pos hwrite, if_pos (Or.inr (Or.inl hwrite))]
    rfl
  rw [if_neg hwrite]
  by_cases hset : setAddr = 0
  · rw [if_pos hset, if_pos (Or.inr (Or.inr hset))]
    rfl
  rw [if_neg hset, if_neg (by tauto)]
  cases readSignalSet (writeSignalSet s.mem oldAddr s.kern.signalMask wordSize).2 setAddr wordSize with
  | none => rfl
  | some set =>
    dsimp only
    rw [Option.bind_some]
    cases changeMask how s.kern.signalMask set with
    | none => rfl
    | some mask => rfl

theorem kern_rtSigaction (s : KState) (signal actionAddr oldActionAddr size : U32) :
    (s.rtSigaction signal actionAddr oldActionAddr size).kern = s.kern := by
  unfold KState.rtSigaction
  split
  · rfl
  dsimp only
  split
  · rfl
  · split
    · rfl
    · split <;> rfl

theorem kern_deliverSignal (s : KState) (signal : Nat) (action : SignalAction) :
    (s.deliverSignal signal action).2.kern =
      if (s.deliverSignal signal action).1.isOk then
        { s.kern with signalMask := s.kern.signalMask ||| action.mask |||
            if action.flags &&& saNodefer = 0 then signalBit signal else 0 }
      else s.kern := by
  simp only [KState.deliverSignal]
  split
  · rfl
  split
  · rfl
  split
  · rfl
  split
  · rfl
  split
  · rfl
  split
  · rfl
  by_cases hdefer : action.flags &&& saNodefer = 0
  · simp only [hdefer, if_true]
    rfl
  have hmask : s.kern.signalMask ||| action.mask ||| (0 : U64) = s.kern.signalMask ||| action.mask :=
    BitVec.or_zero
  simp only [hdefer, if_false, hmask]
  rfl

theorem pendingSignals_rtSigreturn (s : KState) :
    s.rtSigreturn.kern.pendingSignals = s.kern.pendingSignals := by
  unfold KState.rtSigreturn
  split
  · rfl
  · split <;> rfl

theorem Tracks.kill (h : Tracks es s) (pid signal : U32) :
    Tracks (es ++ (kill pid signal).events s) (s.kill pid signal) := by
  simp only [events, KState.kill]
  by_cases hpid : pid ≠ s.kern.pid ∧ pid ≠ 0 ∧ pid ≠ -1
  · rw [if_pos hpid, if_neg (by tauto), append_nil]
    exact h.same rfl
  rw [if_neg hpid]
  by_cases hbig : signal > 64
  · rw [if_pos hbig, if_neg (by bv_omega), append_nil]
    exact h.same rfl
  rw [if_neg hbig]
  by_cases hzero : signal = 0
  · rw [if_neg (not_not.mpr hzero), if_neg (by tauto), append_nil]
    exact h.same rfl
  have hok : (pid = s.kern.pid ∨ pid = 0 ∨ pid = -1) ∧ signal ≤ 64 ∧ signal ≠ 0 :=
    ⟨by tauto, BitVec.not_lt.mp hbig, hzero⟩
  rw [if_pos hzero, if_pos hok]
  refine h.queued ?_
  intro m hm
  exact hasSignal_queueSignal s.kern signal.toNat hm

theorem Tracks.run (h : Tracks es s) (op : SignalOp) : Tracks (es ++ op.events s) (op.run s) := by
  cases op with
  | queue signal => exact h.queued fun m hm => hasSignal_queueSignal s.kern signal hm
  | kill pid signal => exact h.kill pid signal
  | take =>
    unfold events SignalOp.run
    cases htake : s.takePendingSignal.1 with
    | none =>
      rw [takePendingSignal_idle htake]
      exact (append_nil es).symm ▸ h
    | some r =>
      obtain ⟨n, a⟩ := r
      obtain ⟨hav, _⟩ := takePendingSignal_some.mp htake
      refine h.taken hav.1 hav.2.1 ?_
      rw [takePendingSignal_state htake]
  | sigprocmask how setAddr oldAddr size realtime =>
    refine (append_nil es).symm ▸ h.same ?_
    rw [SignalOp.run, kern_sigprocmask]
  | rtSigaction signal actionAddr oldActionAddr size =>
    refine (append_nil es).symm ▸ h.same ?_
    exact congrArg Kernel.pendingSignals (kern_rtSigaction s signal actionAddr oldActionAddr size)
  | deliver signal action =>
    refine (append_nil es).symm ▸ h.same ?_
    rw [SignalOp.run, kern_deliverSignal]
    split <;> rfl
  | sigreturn => exact (append_nil es).symm ▸ h.same (pendingSignals_rtSigreturn s)
  | guest cpu mem => exact (append_nil es).symm ▸ h.same rfl

theorem Tracks.runAll (h : Tracks es s) (ops : List SignalOp) :
    Tracks (es ++ history s ops) (runAll s ops) := by
  induction ops generalizing es s with
  | nil =>
    rw [history, append_nil]
    exact h
  | cons op ops ih =>
    rw [history, ← append_assoc]
    exact ih (h.run op)

theorem tracks_start (h : s.kern.pendingSignals = 0) : Tracks [] s := by
  refine ⟨?_, ?_⟩
  · intro n hn
    rw [h, hasSignal_zero]
    exact iff_of_false Bool.false_ne_true not_outstanding_nil
  · intro n hn
    rw [h, hasSignal_zero]
    exact Nat.le_refl 0

def Due (es : List SignalEvent) (s : KState) (n : Nat) : Prop :=
  IsSignal n ∧ Outstanding es n ∧ hasSignal s.kern.signalMask n = false

theorem Tracks.due_iff (h : Tracks es s) (n : Nat) : Due es s n ↔ s.Available n :=
  and_congr_right fun hn => and_congr_left fun _ => (h.pending n hn).symm

/-- After every run of a kernel that started without pending signals: the lowest signal that is
due is taken, with its action, or none if none is due; what is taken is the only signal that is
no longer pending; and no signal has been taken more often than it was queued. -/
theorem takePendingSignal_exact (s₀ : KState) (h₀ : s₀.kern.pendingSignals = 0) (ops : List SignalOp) :
    let s := runAll s₀ ops
    let es := history s₀ ops
    (∀ n a, s.takePendingSignal.1 = some (n, a) ↔
      Due es s n ∧ (∀ m < n, ¬ Due es s m) ∧ a = s.actions (BitVec.ofNat 32 n)) ∧
    (s.takePendingSignal.1 = none ↔ ∀ n, ¬ Due es s n) ∧
    (∀ n a, s.takePendingSignal.1 = some (n, a) →
      ∃ p, s.takePendingSignal.2 = { s with kern := { s.kern with pendingSignals := p } } ∧
        ∀ m, IsSignal m → (hasSignal p m = true ↔ Outstanding es m ∧ m ≠ n)) ∧
    ∀ n, IsSignal n → es.count (.taken n) ≤ es.count (.queued n) := by
  intro s es
  have h : Tracks es s := (tracks_start h₀).runAll ops
  have hdue := h.due_iff
  refine ⟨?_, ?_, ?_, ?_⟩
  · intro n a
    rw [takePendingSignal_some, hdue n]
    simp only [hdue]
  · rw [takePendingSignal_none]
    simp only [hdue]
  · intro n a htake
    obtain ⟨hav, _⟩ := takePendingSignal_some.mp htake
    refine ⟨_, takePendingSignal_state htake, ?_⟩
    intro m hm
    rw [hasSignal_without hm, hasSignal_bit hav.1 hm, Bool.and_eq_true, Bool.not_eq_true',
      decide_eq_false_iff_not, h.pending m hm]
  · intro n hn
    exact Nat.le_of_add_right_le (h.counted n hn)

def newKernel : KState := KState.new true none CPU.new (Memory.new 4096) Objects.new

/-- Of two signals the lower one. -/
theorem takePendingSignal_exact_two :
    (runAll newKernel [.queue 12, .kill 1 10]).takePendingSignal.1 = some (10, ⟨0, 0, 0, 0⟩) ∧
      Due (history newKernel [.queue 12, .kill 1 10])
        (runAll newKernel [.queue 12, .kill 1 10]) 10 := by
  have htake : (runAll newKernel [.queue 12, .kill 1 10]).takePendingSignal.1 =
      some (10, ⟨0, 0, 0, 0⟩) := by decide
  exact ⟨htake, (((takePendingSignal_exact newKernel rfl [.queue 12, .kill 1 10]).1 10 _).mp htake).1⟩

/-! ## SIGKILL and SIGSTOP -/

def Spares (set : U64) : Prop := hasSignal set 9 = false ∧ hasSignal set 19 = false

instance (set : U64) : Decidable (Spares set) := inferInstanceAs (Decidable (_ ∧ _))

theorem spares_or {set set' : U64} : Spares (set ||| set') ↔ Spares set ∧ Spares set' := by
  simp only [Spares, hasSignal_or, Bool.or_eq_false_iff]
  tauto

theorem Spares.without {set : U64} (h : Spares set) (set' : U64) : Spares (set &&& ~~~ set') := by
  refine ⟨?_, ?_⟩
  · rw [hasSignal_without (by decide), h.1, Bool.false_and]
  · rw [hasSignal_without (by decide), h.2, Bool.false_and]

theorem spares_zero : Spares 0 := by decide

/-- The frame that `rt_sigreturn` goes back to has this mask. -/
def KState.frameMask (s : KState) : Option U64 :=
  (findFrame s.mem (s.cpu.regs ESP)).bind fun base => (restoreFrame s.mem base s.cpu).map Prod.snd

def SignalOp.asked (s : KState) : SignalOp → U64
  | sigprocmask how setAddr oldAddr size realtime =>
    if how = 0 ∨ how = 2 then (s.readMask setAddr oldAddr size realtime).getD 0 else 0
  | deliver signal action =>
    if (s.deliverSignal signal action).1.isOk then
      action.mask ||| if action.flags &&& saNodefer = 0 then signalBit signal else 0
    else 0
  | sigreturn => s.frameMask.getD 0
  | _ => 0

theorem signalMask_rtSigreturn (s : KState) :
    s.rtSigreturn.kern.signalMask = s.frameMask.getD s.kern.signalMask := by
  unfold KState.rtSigreturn KState.frameMask
  cases findFrame s.mem (s.cpu.regs ESP) with
  | none => rfl
  | some base =>
    dsimp only
    rw [Option.bind_some]
    cases restoreFrame s.mem base s.cpu <;> rfl

theorem spares_sigprocmask (h : Spares s.kern.signalMask) (how setAddr oldAddr size : U32)
    (realtime : Bool) :
    Spares (s.sigprocmask how setAddr oldAddr size realtime).kern.signalMask ↔
      Spares ((sigprocmask how setAddr oldAddr size realtime).asked s) := by
  rw [kern_sigprocmask, asked]
  cases s.readMask setAddr oldAddr size realtime with
  | none =>
    refine iff_of_true h ?_
    split <;> exact spares_zero
  | some set =>
    rw [Option.bind_some, Option.getD_some, changeMask]
    by_cases h₀ : how = 0
    · rw [if_pos h₀, if_pos (Or.inl h₀), Option.getD_some, spares_or]
      exact and_iff_right h
    rw [if_neg h₀]
    by_cases h₁ : how = 1
    · subst h₁
      exact iff_of_true (h.without set) spares_zero
    rw [if_neg h₁]
    by_cases h₂ : how = 2
    · rw [if_pos h₂, if_pos (Or.inr h₂)]
      exact Iff.rfl
    · rw [if_neg h₂, if_neg (by tauto)]
      exact iff_of_true h spares_zero

theorem spares_deliver (h : Spares s.kern.signalMask) (signal : Nat) (action : SignalAction) :
    Spares (s.deliverSignal signal action).2.kern.signalMask ↔
      Spares ((deliver signal action).asked s) := by
  rw [kern_deliverSignal, asked]
  split
  · rw [BitVec.or_assoc, spares_or]
    exact and_iff_right h
  · exact iff_of_true h spares_zero

theorem spares_sigreturn (h : Spares s.kern.signalMask) :
    Spares s.rtSigreturn.kern.signalMask ↔ Spares (sigreturn.asked s) := by
  rw [signalMask_rtSigreturn, asked]
  cases s.frameMask with
  | none => exact iff_of_true h spares_zero
  | some mask => exact Iff.rfl

/-- An operation spares the two signals exactly if it does not ask for them. -/
theorem spares_run (h : Spares s.kern.signalMask) (op : SignalOp) :
    Spares (op.run s).kern.signalMask ↔ Spares (op.asked s) := by
  cases op with
  | sigprocmask how setAddr oldAddr size realtime =>
    exact spares_sigprocmask h how setAddr oldAddr size realtime
  | deliver signal action => exact spares_deliver h signal action
  | sigreturn => exact spares_sigreturn h
  | queue signal =>
    refine iff_of_true ?_ spares_zero
    unfold SignalOp.run Kernel.queueSignal
    dsimp only
    split <;> exact h
  | kill pid signal =>
    refine iff_of_true ?_ spares_zero
    simp only [SignalOp.run, KState.kill, Kernel.queueSignal]
    split
    · exact h
    split
    · exact h
    · split
      · split <;> exact h
      · exact h
  | rtSigaction signal actionAddr oldActionAddr size =>
    refine iff_of_true ?_ spares_zero
    rw [SignalOp.run, kern_rtSigaction]
    exact h
  | take =>
    refine iff_of_true ?_ spares_zero
    rw [SignalOp.run]
    cases htake : s.takePendingSignal.1 with
    | none =>
      rw [takePendingSignal_idle htake]
      exact h
    | some r =>
      rw [takePendingSignal_state htake]
      exact h
  | guest cpu mem => exact iff_of_true h spares_zero

def NeverAsked (s₀ : KState) (ops : List SignalOp) : Prop :=
  ∀ pre op, pre ++ [op] <+: ops → Spares (op.asked (runAll s₀ pre))

theorem runAll_snoc (s : KState) (ops : List SignalOp) (op : SignalOp) :
    runAll s (ops ++ [op]) = op.run (runAll s ops) := foldl_concat ..

theorem NeverAsked.spares {s₀ : KState} {ops : List SignalOp} (h : NeverAsked s₀ ops)
    (h₀ : Spares s₀.kern.signalMask) {pre : List SignalOp} (hpre : pre <+: ops) :
    Spares (runAll s₀ pre).kern.signalMask := by
  -- from the back: the last operation was not asking, and what comes before it is shorter
  induction pre using reverseRecOn with
  | nil => exact h₀
  | append_singleton pre op ih =>
    rw [runAll_snoc, spares_run (ih ((prefix_append pre [op]).trans hpre))]
    exact h pre op hpre

/-- Along a run SIGKILL and SIGSTOP are never masked exactly if no operation asks for that; and
then SIGKILL is taken as soon as no lower signal is. -/
theorem unblockable_iff (s₀ : KState) (h₀ : Spares s₀.kern.signalMask) (ops : List SignalOp) :
    ((∀ pre, pre <+: ops → Spares (runAll s₀ pre).kern.signalMask) ↔ NeverAsked s₀ ops) ∧
    (NeverAsked s₀ ops → hasSignal (runAll s₀ ops).kern.pendingSignals 9 = true →
      (∀ m < 9, ¬ (runAll s₀ ops).Available m) →
        (runAll s₀ ops).takePendingSignal.1 = some (9, (runAll s₀ ops).actions 9)) := by
  refine ⟨⟨?_, ?_⟩, ?_⟩
  · intro h pre op hpre
    have hbefore := h pre ((prefix_append pre [op]).trans hpre)
    have hafter := h _ hpre
    rw [runAll_snoc] at hafter
    exact (spares_run hbefore op).mp hafter
  · intro h pre hpre
    exact h.spares h₀ hpre
  · intro h hpending hlow
    have hmask := h.spares h₀ (prefix_refl ops)
    exact takePendingSignal_some.mpr ⟨⟨by decide, hpending, hmask.1⟩, hlow, rfl⟩

theorem unblockable_iff_queued :
    (runAll newKernel [.queue 9]).takePendingSignal.1 = some (9, ⟨0, 0, 0, 0⟩) := by
  refine (unblockable_iff newKernel (by decide) [.queue 9]).2 ?_ (by decide) ?_
  · intro pre op hpre
    have hlen := hpre.length_le
    rw [length_append, length_singleton, length_singleton] at hlen
    obtain rfl : pre = [] := eq_nil_of_length_eq_zero (by omega)
    obtain rfl : op = .queue 9 := (cons_prefix_cons.mp hpre).1
    exact spares_zero
  · intro m hm hav
    have hlow : ∀ m < 9, ¬ (IsSignal m ∧
        hasSignal (runAll newKernel [.queue 9]).kern.pendingSignals m = true) := by decide
    exact hlow m hm ⟨hav.1, hav.2.1⟩

/-- A set with SIGKILL, at address `16`. -/
def setMemory : Memory := ((Memory.new 4096).write32 16 0x100).toOption.getD (Memory.new 4096)

/-- `rt_sigprocmask(SIG_SETMASK, 16, 0, 8)`: SIGKILL is queued and not taken. -/
theorem sigkill_blocked :
    ¬ Spares (runAll newKernel [.guest CPU.new setMemory, .sigprocmask 2 16 0 8 true,
        .queue 9]).kern.signalMask ∧
      (runAll newKernel [.guest CPU.new setMemory, .sigprocmask 2 16 0 8 true,
        .queue 9]).takePendingSignal.1 = none := by
  decide

end IshGo.Kernel
