/-
# `IshGo.Guest.FutexSpaces` — futexes and address spaces

The table of waiters goes by the address alone, and `fork` hands it on.  So a wake reaches
the threads that have waited longest at the number, in whatever address space; it stays in
its own exactly if the ones it takes are from there (`futex_spaces_iff`).
-/
import IshGo.Guest.Acts
import IshGo.Guest.Exit
import IshGo.Guest.Wakeups
import IshGo.Kernel.CallFrame

namespace IshGo.Guest

open I386 Kernel Lib

variable {env : Env} {p : Process} {w : World} {α : Type}

namespace World

/-! ## Turns of the scheduler are traces -/

section Apart
variable {w' : World} {i : Nat}

theorem Apart.of_futexAside {s : KState} (hi : i < w.procs.next)
    (h : FutexAside (w.enter i) s) : Apart w (w.leave i s) := .leave hi h.futex h.record h.aware

theorem Apart.of_eq (hprocs : w'.procs = w.procs) (hfutex : w'.futex = w.futex) : Apart w w' := by
  have hproc : ∀ j, w'.proc j = w.proc j := fun j => congrArg (fun h => h.cell j) hprocs
  refine ⟨by rw [hfutex], fun c _ => by rw [hfutex], by rw [hfutex], ?_, ?_⟩
  · funext j
    rw [World.records, World.records, hproc, hprocs]
  · intro h j hj
    rw [hproc]
    exact h j (hprocs ▸ hj)

theorem Apart.trans {w'' : World} (h : Apart w w') (h' : Apart w' w'') : Apart w w'' where
  waiters := h'.waiters.trans h.waiters
  closed c hc := (h'.closed c (hc.trans_le h.channels)).trans (h.closed c hc)
  channels := h.channels.trans h'.channels
  records := h'.records.trans h.records
  aware ha := h'.aware (h.aware ha)

theorem Apart.runKernel (hi : i < w.procs.next) (x : KernelM α)
    (h : FutexAside (w.enter i) (after x (w.enter i))) : Apart w (w.runKernel i x).2 := by
  obtain ⟨s, hung, heq, rfl⟩ := w.runKernel_eq i x
  rw [heq]
  exact (Apart.of_futexAside hi h).trans (.of_eq rfl rfl)

theorem Apart.setProc (hrecord : p.kern.blockedFutex = (w.proc i).kern.blockedFutex)
    (haware : p.kern.schedulerAware = (w.proc i).kern.schedulerAware) : Apart w (w.setProc i p) := by
  refine ⟨rfl, fun _ _ => rfl, Nat.le_refl _, ?_, ?_⟩
  · funext j
    have hsame : ((w.setProc i p).proc j).kern.blockedFutex = (w.proc j).kern.blockedFutex :=
      Heap.map_cell_set (fun p : Process => p.kern.blockedFutex) w.procs hrecord j
    rw [World.records, World.records, hsame]
    rfl
  intro h j hj
  have hsame : ((w.setProc i p).proc j).kern.schedulerAware = (w.proc j).kern.schedulerAware :=
    Heap.map_cell_set (fun p : Process => p.kern.schedulerAware) w.procs haware j
  rw [hsame]
  exact h j hj

theorem Apart.own (h : (w.proc i).Same p) : Apart w (w.setProc i p) := by
  obtain ⟨b, e, c, hkern⟩ := h.kern
  exact .setProc (by rw [hkern]) (by rw [hkern])

theorem Apart.addTask (pid : U32) (hp : p.kern.blockedFutex = none) : Apart w (w.addTask pid p) := by
  have hold : ∀ j < w.procs.next, (w.addTask pid p).proc j = w.proc j :=
    fun j hj => Heap.cell_alloc_lt w.procs _ hj
  have hnew : ((w.addTask pid p).proc w.procs.next).kern = { p.kern with schedulerAware := true } :=
    congrArg Process.kern (Heap.cell_alloc w.procs _)
  have hcases : ∀ j, j < (w.addTask pid p).procs.next ↔ j < w.procs.next ∨ j = w.procs.next :=
    fun j => Nat.lt_succ_iff_lt_or_eq
  refine ⟨rfl, fun _ _ => rfl, Nat.le_refl _, ?_, ?_⟩
  · funext j
    by_cases hj : j < w.procs.next
    · rw [World.records, if_pos ((hcases j).mpr (Or.inl hj)), hold j hj, World.records, if_pos hj]
    rw [World.records, World.records, if_neg hj]
    split
    · rename_i hlt
      obtain rfl := ((hcases j).mp hlt).resolve_left hj
      rw [hnew]
      exact hp
    · rfl
  · intro h j hj
    rcases (hcases j).mp hj with hlt | rfl
    · rw [hold j hlt]
      exact h j hlt
    · rw [hnew]

end Apart

theorem Act.futexTrace (hsvc : env.services.SparesFutexes) {w₀ w' : World}
    {es : List FutexEvent} (h : Act env w w') (ht : FutexTrace env.host w₀ es w) :
    ∃ es', FutexTrace env.host w₀ (es ++ es') w' := by
  have hother : ∀ {w'}, Apart w w' → ∃ es', FutexTrace env.host w₀ (es ++ es') w' := by
    intro w' hapart
    exact ⟨[], by rw [List.append_nil]; exact ht.other hapart⟩
  cases h with
  | own _ hp => exact hother (.own hp)
  | @machine i m hi =>
    have hset : Apart w (w.setProc i { w.proc i with cpu := m.toCPU }) := .setProc rfl rfl
    exact hother (hset.trans (.of_eq rfl rfl))
  | @request i r hi _ =>
    by_cases hr : ∃ uaddr op value timeoutAddr, r = .futex uaddr op value timeoutAddr
    · obtain ⟨uaddr, op, value, timeoutAddr, rfl⟩ := hr
      exact ⟨_, ht.call uaddr op value timeoutAddr hi⟩
    · refine hother (.runKernel hi _ (Request.futexAside env.host hsvc ?_ _))
      intro uaddr op value timeoutAddr heq
      exact hr ⟨uaddr, op, value, timeoutAddr, heq⟩
  | resumeFutex hi => exact ⟨_, ht.resume hi⟩
  | resumePipe b hi _ => exact hother (.runKernel hi _ (Stays.stays _))
  | take hi => exact hother (.of_futexAside hi (allows_takePendingSignal _))
  | deliver signal action hi =>
    exact hother (.of_futexAside hi (allows_deliverSignal _ signal action))
  | closeOnExit hi => exact hother (.of_futexAside hi (AllowsCalls.table (tableOnly_closeOnExit _)))
  | fork pid =>
    rcases w.fork_cases pid with heq | ⟨i, _, heq⟩
    · rw [heq]
      exact hother (.of_eq rfl rfl)
    · rw [heq]
      refine hother (Apart.trans ?_ (.addTask _ rfl))
      exact .of_eq rfl rfl
  | clone pid caller flags childStack parentTID childTID tls =>
    rcases w.clone_cases pid caller flags childStack parentTID childTID tls with
      ⟨_, _, _, _, heq⟩ | ⟨_, _, _, heq⟩
    · rw [heq]
      exact hother (.of_eq rfl rfl)
    · rw [heq]
      refine hother (Apart.trans ?_ (.addTask _ rfl))
      exact .of_eq rfl rfl
  | store space asked addr value =>
    obtain ⟨mems, heq⟩ := w.storeWord_eq space asked addr value
    rw [heq]
    exact hother (.of_eq rfl rfl)
  | reap | tick | count => exact hother (.of_eq rfl rfl)
  | @install i image hi =>
    have hclose := Apart.of_futexAside hi (AllowsCalls.table (tableOnly_closeCloexec (w.enter i)))
    have hset : Apart (w.leave i (w.enter i).closeCloexec)
        ((w.leave i (w.enter i).closeCloexec).setProc i
          (((w.leave i (w.enter i).closeCloexec).proc i).withImage image w.mems.next)) :=
      .setProc rfl rfl
    exact hother (hclose.trans (hset.trans (.of_eq rfl rfl)))

theorem start_noWaiters (image : Image) (tty : Option Nat) (objs : Objects) :
    NoWaiters (World.start image tty objs) := by
  refine ⟨fun _ => rfl, ?_, fun _ _ => rfl⟩
  intro j
  rw [records]
  split <;> rfl

theorem Reach.futexTrace (hsvc : env.services.SparesFutexes) {C : World → Prop}
    (h : Reach env C w) : ∃ w₀ es, NoWaiters w₀ ∧ FutexTrace env.host w₀ es w := by
  refine (h.of_act (P := fun w => ∃ w₀ es, NoWaiters w₀ ∧ FutexTrace env.host w₀ es w) ?_ ?_ ?_).2
  · intro image tty objs
    exact ⟨_, [], start_noWaiters image tty objs, .refl⟩
  · rintro w w' _ ⟨w₀, es, h₀, ht⟩ hact
    obtain ⟨es', ht'⟩ := hact.futexTrace hsvc ht
    exact ⟨w₀, _, h₀, ht'⟩
  · rintro w id t ⟨w₀, es, h₀, ht⟩
    exact ⟨w₀, es, h₀, ht.other (.of_eq rfl rfl)⟩

/-! ## Whom a wake reaches -/

/-- The address space that the latest wait of a thread was issued in. -/
def issuedIn (es : List FutexEvent) (j : Nat) : Option Nat :=
  es.reverse.findSome? fun
    | .waited thread _ space _ => if thread = j then some space else none
    | _ => none

/-- A wake of `uaddr` by the process `i` takes only threads that have waited in its own address
space, and counts only those. -/
structure KeepsToSpace (host : Host) (es : List FutexEvent) (w : World) (i : Nat)
    (uaddr op value timeoutAddr : U32) : Prop where
  woken : ∀ j, (w.futexCall host i uaddr op value timeoutAddr).Resumable j → ¬ w.Resumable j →
    issuedIn es j = some (w.proc i).space
  counted : ((w.futexCall host i uaddr op value timeoutAddr).result i).toNat =
    min value.toNat (((fifo es).waiting uaddr).countP fun j => issuedIn es j = some (w.proc i).space)

/-- If the first `n` have a property, as many of them are counted as without it. -/
theorem min_countP {p : α → Bool} {l : List α} {n : Nat} (h : ∀ a ∈ l.take n, p a) :
    min n l.length = min n (l.countP p) := by
  have hfront : (l.take n).countP p = (l.take n).length := List.countP_eq_length.mpr h
  have hback : (l.drop n).countP p ≤ (l.drop n).length := List.countP_le_length
  have hsplit : l.countP p = (l.take n).countP p + (l.drop n).countP p := by
    rw [← List.countP_append, List.take_append_drop]
  rw [List.length_take] at hfront
  rw [List.length_drop] at hback
  omega

/-- Every state of every run of the scheduler has a history, and after every history a wake keeps to
the address space of its caller exactly if the threads that it takes have waited there. -/
theorem futex_spaces_iff (env : Env) (hsvc : env.services.SparesFutexes) (C : World → Prop) :
    (∀ w, Reach env C w → ∃ w₀ es, NoWaiters w₀ ∧ FutexTrace env.host w₀ es w) ∧
      ∀ w₀ es w, NoWaiters w₀ → FutexTrace env.host w₀ es w →
        ∀ i < w.procs.next, ∀ uaddr op value timeoutAddr : U32, op &&& ~~~128 = 1 →
          uaddr &&& 3 = 0 →
          (KeepsToSpace env.host es w i uaddr op value timeoutAddr ↔
            ∀ j ∈ ((fifo es).waiting uaddr).take value.toNat,
              issuedIn es j = some (w.proc i).space) := by
  refine ⟨fun w hr => hr.futexTrace hsvc, ?_⟩
  intro w₀ es w h₀ ht i hi uaddr op value timeoutAddr hop haligned
  have hsim := (ht.sim h₀).2
  have hcall := futexCall_wake w env.host i value timeoutAddr hop haligned
  have hresumable := resumable_wake hsim hi uaddr value
  rw [← hcall] at hresumable
  -- who waits has not been woken
  have hfirst : ∀ j ∈ ((fifo es).waiting uaddr).take value.toNat, ¬ w.Resumable j := by
    rintro j hj ⟨u, b, hb, _, hclosed⟩
    rw [(hsim.first hj hb).2] at hclosed
    cases hclosed
  constructor
  · intro h j hj
    exact h.woken j ((hresumable j).mpr (Or.inr hj)) (hfirst j hj)
  intro h
  refine ⟨?_, ?_⟩
  · intro j hafter hbefore
    exact h j (((hresumable j).mp hafter).resolve_left hbefore)
  · rw [hcall, result_wake, length_waiters hsim]
    exact min_countP fun j hj => decide_eq_true (h j hj)

theorem idle_sparesFutexes : idle.services.SparesFutexes := fun _ => ⟨fun _ => ⟨rfl, rfl, rfl⟩⟩

/-- A program at address `0`, with a word that is `1` at `32`. -/
def futexProgram (code : List U8) (regs : Reg → U32) : World :=
  let data : U32 → U8 := fun a => if a = 32 then 1 else code.getD a.toNat 0
  start ⟨{ CPU.new with regs := regs }, { Memory.new 64 with data := data }, 0⟩ none Objects.new

/-- A thread of the caller's program waits at `4`: the wake makes it resumable, and counts it. -/
theorem futex_spaces_iff_thread :
    let w := (twoThreads fun _ => 0).futexCall idle.host 1 4 0 0 0
    (w.Waiting 4 1 ∧ ((w.futexCall idle.host 0 4 1 7 0).result 0) = 1) ∧
      KeepsToSpace idle.host [.waited 1 4 0 none] w 0 4 1 7 0 := by
  intro w
  have hstart : FutexTrace idle.host (twoThreads fun _ => 0) [] (twoThreads fun _ => 0) := .refl
  have htrace := hstart.call 4 0 0 0 (show 1 < (twoThreads fun _ => 0).procs.next by decide)
  refine ⟨⟨⟨⟨4, 0, none⟩, by decide⟩, by decide⟩, ((futex_spaces_iff idle idle_sparesFutexes fun _ => True).2
    _ _ w (twoThreads_noWaiters fun _ => 0) htrace 0 (by decide) 4 1 7 0 (by decide) (by decide)).mpr ?_⟩
  decide

/-- The parent forks and waits at `32`; the child wakes one thread at `32`:

    INT 0x80; SHR EAX, 1; MOV ECX, 1; SUB ECX, EAX; MOV EAX, 240; INT 0x80

The parent has its child's PID `2` in `EAX` and calls `FUTEX_WAIT`; the child has `0` and calls
`FUTEX_WAKE`. -/
def forkedWake : World :=
  futexProgram [0xCD, 0x80, 0xD1, 0xE8, 0xB9, 1, 0, 0, 0, 0x29, 0xC1, 0xB8, 0xF0, 0, 0, 0, 0xCD, 0x80]
    fun r => if r = EAX then 2 else if r = EBX then 32 else if r = EDX then 1 else 0

/-- In its turn, the child wakes the parent, which waits in another address space, and counts
it. -/
theorem futex_crosses_spaces :
    Reach idle (fun _ => True) (turns 10 forkedWake) ∧
      (turns 10 forkedWake).Waiting 32 0 ∧ (turns 11 forkedWake).Resumable 0 ∧
      (turns 11 forkedWake).result 1 = 1 ∧
      ((turns 11 forkedWake).proc 0).space ≠ ((turns 11 forkedWake).proc 1).space := by
  refine ⟨reach_turns (.start _ none rfl) 10 fun _ _ => trivial, ⟨⟨32, 0, none⟩, ?_⟩,
    ⟨32, ⟨32, 0, none⟩, ?_⟩, ?_⟩
  · decide +kernel
  · decide +kernel
  · decide +kernel

end World

end IshGo.Guest
