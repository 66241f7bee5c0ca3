/-
# `IshGo.Kernel.Numbers` — the numbers that new descriptors get

`allocateFD` returns the lowest number that stands for nothing (`lowest_descriptor`).  `dup2` and `dup3` take any
number below 2³² and return it as an `int32`: from 2³¹ on the descriptor is installed, and the guest reads an
error (`dup_whole`).
-/
import IshGo.Kernel.Cloexec

namespace IshGo.Kernel

open I386

variable {fd : Int} {flags newfd oldfd : U32} {s : KState}

/-! ## `allocateFD` -/

namespace Files

variable {f : Files} {tty : Option Nat}

theorem allocateLoop_passed (n : Nat) :
    ∀ {fd k : Int}, fd ≤ k → k < f.allocateLoop tty n fd → f.taken tty k = true := by
  induction n with
  | zero =>
    intro fd k hle hlt
    exact absurd hle (not_le.mpr hlt)
  | succ n ih =>
    intro fd k hle hlt
    rw [allocateLoop] at hlt
    split at hlt
    · rcases Int.lt_or_eq_of_le hle with hnext | rfl
      · exact ih hnext hlt
      · assumption
    · exact absurd hle (not_le.mpr hlt)

/-- Once a number is free, more turns make no difference. -/
theorem allocateLoop_more (n : Nat) :
    ∀ {m : Nat} {fd : Int}, n ≤ m → f.taken tty (f.allocateLoop tty n fd) = false →
    f.allocateLoop tty m fd = f.allocateLoop tty n fd := by
  induction n with
  | zero =>
    intro m fd _ hfree
    cases m with
    | zero => rfl
    | succ m => exact if_neg (by rw [show f.taken tty fd = false from hfree]; exact Bool.false_ne_true)
  | succ n ih =>
    intro m fd hle hfree
    obtain ⟨m, rfl⟩ : ∃ k, m = k + 1 := Nat.exists_eq_succ_of_ne_zero (by omega)
    rw [allocateLoop] at hfree ⊢
    rw [allocateLoop]
    split
    · rename_i ht
      rw [if_pos ht] at hfree
      exact ih (by omega) hfree
    · rfl

end Files

/-- The lowest number from `start` on that stands for nothing. -/
structure KState.Lowest (s : KState) (start fd : Int) : Prop where
  above : max start 0 ≤ fd
  free : s.handleForFD fd = none
  least : ∀ k, max start 0 ≤ k → k < fd → s.handleForFD k ≠ none

theorem lowest_allocateFD (s : KState) (start : Int) :
    s.Lowest start (s.files.allocateFD s.kern.tty start) := by
  obtain ⟨-, habove, hpos⟩ := s.files.allocateFD_free s.kern.tty start
  refine ⟨max_le habove hpos, handleForFD_allocateFD s start, fun k hk hlt => ?_⟩
  refine (taken_iff (le_trans (le_max_right _ _) hk)).mp (Files.allocateLoop_passed _ ?_ hlt)
  split
  · exact le_trans (le_max_right _ _) hk
  · exact le_trans (le_max_left _ _) hk

/-- The operations that take a number from `allocateFD`. -/
def TableOp.allocates : TableOp → Bool
  | .open _ _ _ | .pipe _ _ | .fcntl _ _ _ => true
  | _ => false

theorem Installs.keeps {nums : List Int} {s' : KState} (h : Installs nums s s')
    (hfree : ∀ fd ∈ nums, s.handleForFD fd = none) (hin : s.handleForFD fd ≠ none) :
    s'.handleForFD fd = s.handleForFD fd := h.handle fd fun hmem => hin (hfree fd hmem)

theorem TableOp.keeps (host : Host) (s : KState) {op : TableOp} (hop : op.allocates = true)
    (hin : s.handleForFD fd ≠ none) : (op.run host s).handleForFD fd = s.handleForFD fd := by
  cases op with
  | «open» pathAddr flags mode =>
    show (s.open host pathAddr flags mode).handleForFD fd = _
    obtain ⟨objs, -, ⟨v, hrun, -⟩ | ⟨h, -, hrun⟩⟩ :=
      open_cases host s pathAddr flags mode <;> rw [hrun]
    · rfl
    · refine (installs_openInstall { s with objs := objs } h).keeps (fun k hk => ?_) hin
      rw [List.mem_singleton.mp hk]
      exact handleForFD_allocateFD s 0
  | pipe addr flags =>
    show (s.pipe addr flags).handleForFD fd = _
    rcases pipe_cases s addr flags with hrun | ⟨r, w, nonblock, cloexec, mem, v, hr, hw, -, -, hrun | hrun⟩ <;>
      rw [hrun]
    · rfl
    · refine (installs_pipeInstall s r w nonblock _ mem v).1.keeps (fun k hk => ?_) hin
      rcases List.mem_pair.mp hk with rfl | rfl <;> assumption
    · exact (rollback_same (handleForFD_eq_none.mp hr).1 (handleForFD_eq_none.mp hw).1 nonblock _ mem _ _ v).2.1 fd
  | fcntl k command argument =>
    show (s.fcntl k command argument).handleForFD fd = _
    rcases fcntl_cases s k command argument with ⟨_, v, -, hrun⟩ | ⟨h, cloexec, start, v, -, -, hrun⟩ <;> rw [hrun]
    · rfl
    · refine (installs_installClone s _ h cloexec v).1.keeps (fun n hn => ?_) hin
      rw [List.mem_singleton.mp hn]
      exact handleForFD_allocateFD s start
  | _ => cases hop

/-- **The lowest free number.**  In any state the loop of `allocateFD` ends, at the lowest number from `start` on
that stands for nothing; `open`, `pipe` and `fcntl` leave every descriptor that is in use, `pipe` takes the two
lowest free numbers, and what `open` installs gets the lowest. -/
theorem lowest_descriptor (host : Host) (s : KState) :
    (∀ start, s.Lowest start (s.files.allocateFD s.kern.tty start) ∧
      ∀ n, s.files.fds.entries.length + 3 ≤ n →
        s.files.allocateLoop s.kern.tty n (if start < 0 then 0 else start) =
          s.files.allocateFD s.kern.tty start) ∧
    (∀ (op : TableOp) (fd : Int), op.allocates = true → s.handleForFD fd ≠ none →
      (op.run host s).handleForFD fd = s.handleForFD fd) ∧
    (∀ addr flags, s.pipe addr flags = s.ret einval ∨ ∃ r w nonblock cloexec, s.Lowest 0 r ∧
      s.Lowest (r + 1) w ∧
      s.pipe addr flags = (s.pipeInstall r w nonblock cloexec).pipeReturn addr r w
        (s.objs.newPipePair nonblock).1 (s.objs.newPipePair nonblock).2.1) ∧
    ∀ pathAddr flags mode, (∃ objs v,
      s.open host pathAddr flags mode = { s with objs := objs }.ret v ∧ v.toInt < 0) ∨
      ∃ fd h, s.Lowest 0 fd ∧ (s.open host pathAddr flags mode).handleForFD fd = some h ∧
        (s.open host pathAddr flags mode).cpu.regs EAX = BitVec.ofInt 32 fd := by
  refine ⟨fun start => ⟨lowest_allocateFD s start, fun n hn => ?_⟩,
    fun op fd hop hin => op.keeps host s hop hin,
    fun addr flags => ?_, fun pathAddr flags mode => ?_⟩
  · exact Files.allocateLoop_more _ hn (s.files.allocateFD_free s.kern.tty start).1
  · unfold KState.pipe
    split
    · exact .inl rfl
    · exact .inr ⟨_, _, _, _, lowest_allocateFD s 0, lowest_allocateFD s _, rfl⟩
  · obtain ⟨objs, -, ⟨v, hrun, hneg⟩ | ⟨h, -, hrun⟩⟩ := open_cases host s pathAddr flags mode
    · exact .inl ⟨objs, v, hrun, hneg⟩
    · refine .inr ⟨s.files.allocateFD s.kern.tty 0, h, lowest_allocateFD s 0, ?_, ?_⟩ <;> rw [hrun]
      · exact handleForFD_entry (by simp [KState.openInstall, KState.entry])
      · rfl

/-! ## `dup2` and `dup3` -/

/-- What a handle stands for: a pipe and the end of it, or itself. -/
def Objects.standsFor (o : Objects) : Handle → Handle ⊕ Nat × Bool
  | .pipe id => .inr ((o.ends id).pipe, (o.ends id).write)
  | h => .inl h

/-- The tables say the same of a number. -/
structure KState.SameAt (s t : KState) (fd : Int) : Prop where
  entry : t.entry fd = s.entry fd
  closed : t.files.closedFDs fd = s.files.closedFDs fd
  cloexec : t.files.fdCloexec.lookup fd = s.files.fdCloexec.lookup fd

/-- An error, and nothing has changed; or the number, which stands for what the other stands for, and
no other number has changed. -/
structure DupWhole (s t : KState) (oldfd newfd : U32) : Prop where
  failed : (t.cpu.regs EAX).toInt < 0 → (∀ fd, s.SameAt t fd) ∧ t.objs = s.objs
  value : 0 ≤ (t.cpu.regs EAX).toInt → t.cpu.regs EAX = newfd
  same : 0 ≤ (t.cpu.regs EAX).toInt → ∃ h h', s.handleForFD oldfd.toNat = some h ∧
    t.handleForFD newfd.toNat = some h' ∧ t.objs.standsFor h' = s.objs.standsFor h
  others : ∀ fd : Int, fd ≠ newfd.toNat → s.SameAt t fd

/-- The new number has the handle already, which is not the end of a pipe, with the flag asked for:
to install it again changes nothing. -/
def KState.DupIdle (s : KState) (oldfd newfd : U32) (cloexec : Bool) : Prop :=
  (∃ h, s.handleForFD oldfd.toNat = some h ∧ s.entry newfd.toNat = some h ∧ ∀ id, h ≠ .pipe id) ∧
    s.files.closedFDs newfd.toNat = false ∧
    s.files.fdCloexec.lookup (newfd.toNat : Int) = if cloexec then some true else none

/-- A descriptor is installed on a number that is negative as an `int32`, and was not there before. -/
def KState.DupNegative (s : KState) (oldfd newfd flags : U32) (cloexec : Bool) : Prop :=
  s.DupAccepts oldfd.toNat newfd.toNat flags ∧ 0x80000000 ≤ newfd.toNat ∧
    ¬ s.DupIdle oldfd newfd cloexec

theorem standsFor_close (o : Objects) (h k : Handle) : (o.close h).standsFor k = o.standsFor k := by
  cases h with
  | pipe id =>
    unfold Objects.close
    dsimp only
    split
    · rfl
    cases k with
    | pipe id' =>
      by_cases hid : id' = id
      · subst hid
        simp [Objects.standsFor]
      · simp [Objects.standsFor, hid]
    | _ => rfl
  | _ => cases k <;> rfl

section Accepted
variable {h : Handle} {cloexec : Bool} {v : U32}

/-- The new number after `dupInstall`. -/
theorem dup_entry :
    let t := ((s.closeReplaced newfd.toNat h).installClone newfd.toNat h cloexec).ret v
    t.entry newfd.toNat = some ((s.closeReplaced newfd.toNat h).objs.cloneHandle h).1 ∧
      t.files.closedFDs newfd.toNat = false ∧
      t.files.fdCloexec.lookup (newfd.toNat : Int) = if cloexec then some true else none := by
  cases cloexec <;> simp [KState.installClone, KState.entry]

theorem dup_others (hfd : fd ≠ newfd.toNat) :
    s.SameAt (((s.closeReplaced newfd.toNat h).installClone newfd.toNat h cloexec).ret v) fd := by
  have hfiles := (closeReplaced_files s newfd.toNat h).1
  constructor <;> cases cloexec <;>
    simp [KState.installClone, KState.entry, hfd, hfiles]

theorem nextEnd_close (o : Objects) (h : Handle) : (o.close h).nextEnd = o.nextEnd := by
  cases h with
  | pipe id =>
    unfold Objects.close
    dsimp only
    split <;> rfl
  | _ => rfl

theorem nextEnd_closeReplaced (s : KState) (fd : Int) (h : Handle) :
    (s.closeReplaced fd h).objs.nextEnd = s.objs.nextEnd := by
  unfold KState.closeReplaced
  split
  · split
    · exact nextEnd_close ..
    · rfl
  · rfl

theorem standsFor_closeReplaced (s : KState) (fd : Int) (h k : Handle) :
    (s.closeReplaced fd h).objs.standsFor k = s.objs.standsFor k := by
  unfold KState.closeReplaced
  split
  · split
    · exact standsFor_close ..
    · rfl
  · rfl

theorem toInt_neg_iff : newfd.toInt < 0 ↔ 0x80000000 ≤ newfd.toNat := by
  rw [BitVec.toInt_eq_toNat_cond]
  split <;> omega

/-- The number is not negative. -/
theorem dup_installed (hh : s.handleForFD oldfd.toNat = some h) (hlow : newfd.toNat < 0x80000000) :
    DupWhole s (((s.closeReplaced newfd.toNat h).installClone newfd.toNat h cloexec).ret newfd) oldfd newfd := by
  refine ⟨fun hneg => ?_, fun _ => rfl, fun _ => ⟨h, _, hh, handleForFD_entry dup_entry.1, ?_⟩,
    fun fd hfd => dup_others hfd⟩
  · have hhigh := toInt_neg_iff.mp (show newfd.toInt < 0 from hneg)
    omega
  · rw [← standsFor_closeReplaced s newfd.toNat h h]
    cases h with
    | pipe id => simp [KState.installClone, KState.ret, KState.setReg, Objects.cloneHandle, Objects.standsFor]
    | _ => rfl

/-- The number is negative: an error is read, and nothing must have changed. -/
theorem dup_negative_iff (hh : s.handleForFD oldfd.toNat = some h)
    (hhigh : 0x80000000 ≤ newfd.toNat) :
    DupWhole s (((s.closeReplaced newfd.toNat h).installClone newfd.toNat h cloexec).ret newfd) oldfd newfd ↔
      s.DupIdle oldfd newfd cloexec := by
  have hneg : newfd.toInt < 0 := toInt_neg_iff.mpr hhigh
  have hnew := @dup_entry newfd s h cloexec newfd
  constructor
  · intro hwhole
    obtain ⟨hsame, hobjs⟩ := hwhole.failed hneg
    have hentry := (hsame newfd.toNat).entry
    rw [hnew.1] at hentry
    have hpipe : ∀ id, h ≠ .pipe id := by
      rintro id rfl
      -- the clone of the end of a pipe is a new one
      have hnext : (s.closeReplaced newfd.toNat (.pipe id)).objs.nextEnd + 1 = s.objs.nextEnd :=
        congrArg Objects.nextEnd hobjs
      rw [nextEnd_closeReplaced] at hnext
      omega
    have hclone : ((s.closeReplaced newfd.toNat h).objs.cloneHandle h).1 = h := by
      cases h with
      | pipe id => exact absurd rfl (hpipe id)
      | _ => rfl
    rw [hclone] at hentry
    exact ⟨⟨h, hh, hentry.symm, hpipe⟩, (hsame _).closed ▸ hnew.2.1, (hsame _).cloexec ▸ hnew.2.2⟩
  · rintro ⟨⟨k, hk, hentry, hpipe⟩, hclosed, hflag⟩
    obtain rfl : k = h := Option.some.inj (hk.symm.trans hh)
    have hreplaced : s.closeReplaced newfd.toNat k = s := by
      simp only [KState.closeReplaced, hentry, ne_eq, not_true, if_false]
    have hclone : s.objs.cloneHandle k = (k, s.objs) := by
      cases k with
      | pipe id => exact absurd rfl (hpipe id)
      | _ => rfl
    have hpos {P : Prop} : 0 ≤ newfd.toInt → P := fun h => absurd h (not_le.mpr hneg)
    refine ⟨fun _ => ⟨fun fd => ?_, ?_⟩, hpos, hpos, fun fd hfd => dup_others hfd⟩
    · by_cases hfd : fd = newfd.toNat
      · subst hfd
        rw [hreplaced, hclone] at hnew
        rw [hreplaced]
        exact ⟨hnew.1.trans hentry.symm, hnew.2.1.trans hclosed.symm, hnew.2.2.trans hflag.symm⟩
      · exact dup_others hfd
    · show ((s.closeReplaced newfd.toNat k).objs.cloneHandle k).2 = s.objs
      rw [hreplaced, hclone]

end Accepted

theorem dup_refused (dup3 : Bool) (ha : ¬ s.DupAccepts oldfd.toNat newfd.toNat flags) :
    DupWhole s ((s.dupResult oldfd.toNat newfd.toNat flags dup3).2.ret
      (s.dupResult oldfd.toNat newfd.toNat flags dup3).1) oldfd newfd := by
  obtain ⟨v, hrun, hneg | ⟨rfl, heq, hin⟩⟩ := dupResult_refused dup3 ha <;> rw [hrun]
  · exact ⟨fun _ => ⟨fun _ => ⟨rfl, rfl, rfl⟩, rfl⟩, fun h => absurd h (not_le.mpr hneg),
      fun h => absurd h (not_le.mpr hneg), fun _ _ => ⟨rfl, rfl, rfl⟩⟩
  · obtain ⟨h, hh⟩ := Option.ne_none_iff_exists'.mp hin
    refine ⟨fun _ => ⟨fun _ => ⟨rfl, rfl, rfl⟩, rfl⟩, fun _ => ?_,
      fun _ => ⟨h, h, hh, heq ▸ hh, rfl⟩,
      fun _ _ => ⟨rfl, rfl, rfl⟩⟩
    exact (BitVec.ofInt_natCast ..).trans ((BitVec.ofNat_toNat ..).trans (BitVec.setWidth_eq _))

/-- **`dup2` and `dup3` do all or nothing**, exactly unless a descriptor that was not there is
installed on a number that is negative as an `int32`. -/
theorem dup_whole (s : KState) (oldfd newfd flags : U32) :
    (DupWhole s (s.dup2 oldfd.toNat newfd.toNat) oldfd newfd ↔
      ¬ s.DupNegative oldfd newfd 0 false) ∧
      (DupWhole s (s.dup3 oldfd.toNat newfd.toNat flags) oldfd newfd ↔
        ¬ s.DupNegative oldfd newfd flags (flags &&& KState.oCloexec ≠ 0)) := by
  have hboth (flags : U32) (dup3 cloexec : Bool) (hc : cloexec = decide (dup3 = true ∧
    flags &&& KState.oCloexec ≠ 0)) :
      DupWhole s ((s.dupResult oldfd.toNat newfd.toNat flags dup3).2.ret
        (s.dupResult oldfd.toNat newfd.toNat flags dup3).1) oldfd newfd ↔
        ¬ s.DupNegative oldfd newfd flags cloexec := by
    by_cases ha : s.DupAccepts oldfd.toNat newfd.toNat flags
    · obtain ⟨h, hh⟩ := Option.ne_none_iff_exists'.mp ha.2.2
      have hvalue : BitVec.ofInt 32 (newfd.toNat : Int) = newfd := by
        rw [BitVec.ofInt_natCast, BitVec.ofNat_toNat, BitVec.setWidth_eq]
      rw [dupResult_accepted dup3 ha hh, hvalue, ← hc]
      by_cases hhigh : 0x80000000 ≤ newfd.toNat
      · rw [dup_negative_iff hh hhigh]
        exact ⟨fun hidle hneg => hneg.2.2 hidle,
          fun hneg => by_contra fun hidle => hneg ⟨ha, hhigh, hidle⟩⟩
      · exact iff_of_true (dup_installed hh (not_le.mp hhigh)) fun hneg => hhigh hneg.2.1
    · exact iff_of_true (dup_refused dup3 ha) fun hneg => ha hneg.1
  exact ⟨hboth 0 false false (by simp), hboth flags true _ (by simp)⟩

/-- `dup2(0, 2³¹)` says that it has failed, and the number stands for the terminal. -/
theorem dup_negative :
    ((fresh.dup2 0 (0x80000000 : U32).toNat).cpu.regs EAX).toInt < 0 ∧
      fresh.handleForFD 0x80000000 = none ∧
      (fresh.dup2 0 (0x80000000 : U32).toNat).handleForFD 0x80000000 = some (.tty 0) := by
  decide +kernel

end IshGo.Kernel
