/-
# `IshGo.Kernel.Cloexec` — does `FD_CLOEXEC` belong to an open descriptor?

The flag lives in a map of its own, `fdCloexec`, next to the entries and the closed marks.  Three
things are asked of every operation on descriptors:

    afterwards the flag is set only where a descriptor is open
    a new descriptor has the flag exactly if the call asked for it
    `CloseCloexec` closes what has the flag, and nothing else
-/
import IshGo.Kernel.Closed

namespace IshGo.Kernel

open I386 KState List

/-! ## What is asked -/

namespace KState

/-- `fdCloexec[fd]` -/
def flagged (s : KState) (fd : Int) : Prop := s.files.fdCloexec.lookup fd = some true

instance (s : KState) (fd : Int) : Decidable (s.flagged fd) := inferInstanceAs (Decidable (_ = _))

def Tidy (s : KState) : Prop := ∀ fd, s.flagged fd → s.handleForFD fd ≠ none

end KState

namespace TableOp

/-- The descriptors that a call has made: `open`, `pipe` and `fcntl` take numbers without an entry,
`dup2` and `dup3` the number they are given. -/
def News (host : Host) (s : KState) (fd : Int) : TableOp → Prop
  | .open pathAddr flags mode => s.entry fd = none ∧
    (s.open host pathAddr flags mode).entry fd ≠ none
  | .pipe addr flags => s.entry fd = none ∧ (s.pipe addr flags).entry fd ≠ none
  | .dup2 oldFD newFD => fd = newFD ∧ s.DupAccepts oldFD newFD 0
  | .dup3 oldFD newFD flags => fd = newFD ∧ s.DupAccepts oldFD newFD flags
  | .fcntl fd' command argument => s.entry fd = none ∧
    (s.fcntl fd' command argument).entry fd ≠ none
  | .close _ | .closeCloexec | .guest _ _ => False

def wants : TableOp → Bool
  | .pipe _ flags | .dup3 _ _ flags => flags &&& oCloexec ≠ 0
  | .fcntl _ command _ => command = fDupFDCloexec
  | .open _ _ _ | .dup2 _ _ | .close _ | .closeCloexec | .guest _ _ => false

structure Sound (host : Host) (s : KState) (op : TableOp) : Prop where
  tidy : (op.run host s).Tidy
  news : ∀ fd, op.News host s fd → ((op.run host s).flagged fd ↔ op.wants = true)
  closes : op = .closeCloexec → ∀ fd, s.flagged fd → (op.run host s).handleForFD fd = none
  spares : op = .closeCloexec → ∀ fd, ¬ s.flagged fd →
    (op.run host s).handleForFD fd = s.handleForFD fd

/-- The operations that do not: the terminal with the flag is closed, or is there at `CloseCloexec`. -/
def Leaks (s : KState) : TableOp → Prop
  | .close fd => s.flagged fd ∧ s.entry fd = none ∧ s.handleForFD fd ≠ none
  | .closeCloexec => ∃ fd, s.flagged fd ∧ s.Standard fd
  | .open _ _ _ | .pipe _ _ | .dup2 _ _ | .dup3 _ _ _ | .fcntl _ _ _ | .guest _ _ => False

end TableOp

/-! ## Flags and handles -/

section Flags
variable (f : Files) (fd fd' : Int) (h : Handle)

@[simp] theorem cloexec_markCloexec :
    (f.markCloexec fd).fdCloexec.lookup fd' =
      if fd' = fd then some true else f.fdCloexec.lookup fd' := by
  by_cases hfd : fd' = fd
  · subst hfd
    rw [if_pos rfl]
    exact AList.lookup_insert f.fdCloexec
  · rw [if_neg hfd]
    exact AList.lookup_insert_ne hfd

@[simp] theorem cloexec_clearCloexec :
    (f.clearCloexec fd).fdCloexec.lookup fd' =
      if fd' = fd then none else f.fdCloexec.lookup fd' := by
  by_cases hfd : fd' = fd
  · subst hfd
    rw [if_pos rfl]
    exact AList.lookup_erase fd' f.fdCloexec
  · rw [if_neg hfd]
    exact AList.lookup_erase_ne hfd

@[simp] theorem cloexec_install : (f.install fd h).fdCloexec = f.fdCloexec := rfl
@[simp] theorem cloexec_remove : (f.remove fd).fdCloexec = f.fdCloexec := rfl
@[simp] theorem cloexec_markClosed : (f.markClosed fd).fdCloexec = f.fdCloexec := rfl
@[simp] theorem cloexec_clearClosed : (f.clearClosed fd).fdCloexec = f.fdCloexec := rfl

end Flags

@[simp] theorem files_ret (s : KState) (v : U32) : (s.ret v).files = s.files := rfl

/-- What an operation does that installs descriptors on the numbers `nums`, and touches no other. -/
structure Installs (nums : List Int) (s s' : KState) : Prop where
  isOpen : ∀ fd ∈ nums, s'.entry fd ≠ none
  entry : ∀ fd, fd ∉ nums → s'.entry fd = s.entry fd
  handle : ∀ fd, fd ∉ nums → s'.handleForFD fd = s.handleForFD fd
  flag : ∀ fd, fd ∉ nums → (s'.flagged fd ↔ s.flagged fd)

section Installs
variable {s s' : KState} {nums : List Int}

theorem Installs.tidy (h : Installs nums s s') (ht : s.Tidy) : s'.Tidy := by
  intro fd hflag
  by_cases hmem : fd ∈ nums
  · obtain ⟨f, hf⟩ := Option.ne_none_iff_exists'.mp (h.isOpen fd hmem)
    rw [handleForFD_entry hf]
    exact Option.some_ne_none f
  · rw [h.handle fd hmem]
    exact ht fd ((h.flag fd hmem).mp hflag)

theorem Installs.mem_of_new (h : Installs nums s s') {fd : Int} (hold : s.entry fd = none)
    (hnew : s'.entry fd ≠ none) : fd ∈ nums := by
  by_contra hmem
  exact hnew ((h.entry fd hmem).trans hold)

theorem KState.Tidy.mono (ht : s.Tidy) (hhandle : ∀ fd, s'.handleForFD fd = s.handleForFD fd)
    (hflag : ∀ fd, s'.flagged fd → s.flagged fd) : s'.Tidy := by
  intro fd hfd
  rw [hhandle]
  exact ht fd (hflag fd hfd)

end Installs

/-! ## The operations -/

theorem installs_openInstall (s : KState) (h : Handle) :
    Installs [s.files.allocateFD s.kern.tty 0] s (s.openInstall h) := by
  refine ⟨fun fd hmem => ?_, fun fd hmem => ?_, fun fd hmem => ?_, fun fd hmem => Iff.rfl⟩
  · rw [mem_singleton.mp hmem]
    simp [openInstall, entry]
  · simp [openInstall, entry, mem_singleton.not.mp hmem]
  · refine handleForFD_congr rfl ?_ ?_
    · simp [openInstall, entry, mem_singleton.not.mp hmem]
    · simp [openInstall, mem_singleton.not.mp hmem]

theorem installs_installClone (s : KState) (fd : Int) (h : Handle) (cloexec : Bool) (v : U32) :
    Installs [fd] s ((s.installClone fd h cloexec).ret v) ∧
      (((s.installClone fd h cloexec).ret v).flagged fd ↔ cloexec = true) := by
  refine ⟨⟨fun fd' hmem => ?_, fun fd' hmem => ?_, fun fd' hmem => ?_, fun fd' hmem => ?_⟩, ?_⟩
  · rw [mem_singleton.mp hmem]
    cases cloexec <;> simp [installClone, entry]
  · have hne := mem_singleton.not.mp hmem
    cases cloexec <;> simp [installClone, entry, hne]
  · have hne := mem_singleton.not.mp hmem
    refine handleForFD_congr rfl ?_ ?_
    · cases cloexec <;> simp [installClone, entry, hne]
    · cases cloexec <;> simp [installClone, hne]
  · have hne := mem_singleton.not.mp hmem
    cases cloexec <;> simp [installClone, flagged, hne]
  · cases cloexec <;> simp [installClone, flagged]

theorem installs_pipeInstall (s : KState) (readFD writeFD : Int) (nonblock cloexec : Bool)
    (mem : Memory) (v : U32) :
    Installs [readFD, writeFD] s ({ s.pipeInstall readFD writeFD nonblock cloexec with mem := mem }.ret v) ∧
      ∀ fd ∈ [readFD, writeFD],
        (({ s.pipeInstall readFD writeFD nonblock cloexec with mem := mem }.ret v).flagged fd ↔
          cloexec = true ∨ s.flagged fd) := by
  have hnot (fd : Int) (hmem : fd ∉ [readFD, writeFD]) : fd ≠ readFD ∧ fd ≠ writeFD := by
    simpa using hmem
  refine ⟨⟨fun fd hmem => ?_, fun fd hmem => ?_, fun fd hmem => ?_, fun fd hmem => ?_⟩,
    fun fd hmem => ?_⟩
  · cases cloexec <;>
      simp only [pipeInstall, files_ret, entry, if_true, Bool.false_eq_true, if_false,
        fds_markCloexec, lookup_install] <;>
      split <;> simp_all
  · obtain ⟨hr, hw⟩ := hnot fd hmem
    cases cloexec <;> simp [pipeInstall, entry, hr, hw]
  · obtain ⟨hr, hw⟩ := hnot fd hmem
    refine handleForFD_congr rfl ?_ ?_
    · cases cloexec <;> simp [pipeInstall, entry, hr, hw]
    · cases cloexec <;> simp [pipeInstall]
  · obtain ⟨hr, hw⟩ := hnot fd hmem
    cases cloexec <;> simp [pipeInstall, flagged, hr, hw]
  · have hor : fd = readFD ∨ fd = writeFD := by simpa using hmem
    rcases hor with rfl | rfl <;> cases cloexec <;>
      simp [pipeInstall, flagged]

theorem rollback_same {s : KState} {readFD writeFD : Int} (hread : s.entry readFD = none)
    (hwrite : s.entry writeFD = none)
    (nonblock cloexec : Bool) (mem : Memory) (a b : Handle) (v : U32) :
    let s' := ({ s.pipeInstall readFD writeFD nonblock cloexec with mem := mem }.pipeRollback readFD writeFD a b).ret v
    (∀ fd, s'.entry fd = s.entry fd) ∧ (∀ fd, s'.handleForFD fd = s.handleForFD fd) ∧
      ∀ fd, s'.flagged fd → s.flagged fd := by
  intro s'
  have hentry (fd : Int) : s'.entry fd = s.entry fd := by
    by_cases hr : fd = readFD
    · subst hr
      rw [hread]
      cases cloexec <;> simp [s', pipeRollback, pipeInstall, entry]
    by_cases hw : fd = writeFD
    · subst hw
      rw [hwrite]
      cases cloexec <;> simp [s', pipeRollback, pipeInstall, entry]
    · cases cloexec <;>
        simp [s', pipeRollback, pipeInstall, entry, hr, hw]
  refine ⟨hentry, fun fd => handleForFD_congr rfl (hentry fd) ?_, fun fd hflag => ?_⟩
  · cases cloexec <;> rfl
  by_cases hr : fd = readFD
  · simp [s', pipeRollback, flagged, hr] at hflag
  by_cases hw : fd = writeFD
  · simp [s', pipeRollback, flagged, hw] at hflag
  · cases cloexec <;>
      simpa [s', pipeRollback, pipeInstall, flagged, hr, hw]
        using hflag

/-- After `CloseCloexec`, by number. -/
theorem handleForFD_closeCloexec (s : KState) (fd : Int) :
    s.closeCloexec.handleForFD fd =
      if s.flagged fd then (if s.Standard fd then s.kern.tty.map .tty else none) else s.handleForFD fd := by
  split
  · rename_i hflag
    have he : s.closeCloexec.entry fd = none := (closeCloexec_entry s fd).trans (if_pos hflag)
    have hc : s.closeCloexec.files.closedFDs fd = false :=
      (closeCloexec_closedFDs s fd).trans (if_pos hflag)
    rw [handleForFD_implicit he, hc, closeCloexec_kern, if_neg Bool.false_ne_true]
    by_cases hs : 0 ≤ fd ∧ fd ≤ 2
    · rw [if_pos hs]
      by_cases htty : s.kern.tty = none
      · rw [htty, if_neg fun h => h.2 htty]
        rfl
      · rw [if_pos ⟨hs, htty⟩]
    · rw [if_neg hs, if_neg fun h => hs h.1]
  · rename_i hflag
    exact handleForFD_congr (by rw [closeCloexec_kern]) ((closeCloexec_entry s fd).trans (if_neg hflag))
      ((closeCloexec_closedFDs s fd).trans (if_neg hflag))

theorem closeCloexec_flags (s : KState) (fd : Int) : ¬ s.closeCloexec.flagged fd := by
  have hturn (s : KState) (fd' : Int) (cloexec : Bool) :
      (s.closeCloexecAt fd' cloexec).files.fdCloexec.lookup fd =
        if fd = fd' ∧ cloexec = true then none else s.files.fdCloexec.lookup fd := by
    cases cloexec with
    | false => simp [closeCloexecAt]
    | true =>
      simp only [closeCloexecAt]
      cases s.entry fd' with
      | some h => simp
      | none => simp
  have hall := foldl_cloexec (·.files.fdCloexec.lookup fd) fd none hturn s.files.fdCloexec.entries s
  simp only [mem_cloexec] at hall
  intro hflag
  rw [flagged, closeCloexec, hall] at hflag
  split at hflag
  · cases hflag
  · exact absurd hflag ‹_›

section Sound
variable {host : Host} {s : KState} (ht : s.Tidy)
include ht

theorem not_flagged {fd : Int} (h : s.handleForFD fd = none) :
    ¬ s.flagged fd := fun hflag => ht fd hflag h

theorem sound_open (pathAddr flags mode : U32) :
    (TableOp.open pathAddr flags mode).Sound host s := by
  obtain ⟨objs, -, ⟨v, hrun, -⟩ | ⟨h, -, hrun⟩⟩ := open_cases host s pathAddr flags mode
  · have hsame (fd : Int) : (s.open host pathAddr flags mode).entry fd = s.entry fd := by
      rw [hrun]
      rfl
    refine ⟨?_, fun fd hnews => absurd ((hsame fd).trans hnews.1) hnews.2, nofun, nofun⟩
    show (s.open host pathAddr flags mode).Tidy
    rw [hrun]
    exact ht
  have hinst := installs_openInstall { s with objs := objs } h
  rw [← hrun] at hinst
  refine ⟨hinst.tidy ht, fun fd hnews => iff_of_false ?_ Bool.false_ne_true, nofun, nofun⟩
  -- `open` leaves the flag that it finds, and there is none
  obtain rfl := mem_singleton.mp (hinst.mem_of_new hnews.1 hnews.2)
  show ¬ (s.open host pathAddr flags mode).flagged _
  rw [hrun]
  exact not_flagged ht (handleForFD_allocateFD s 0)

theorem sound_pipe (addr flags : U32) : (TableOp.pipe addr flags).Sound host s := by
  rcases pipe_cases s addr flags with
    hrun | ⟨readFD, writeFD, nonblock, _, mem, v, hread, hwrite, -, rfl, hrun | hrun⟩
  · have hsame (fd : Int) : (s.pipe addr flags).entry fd = s.entry fd := by
      rw [hrun]
      rfl
    refine ⟨?_, fun fd hnews => absurd ((hsame fd).trans hnews.1) hnews.2, nofun, nofun⟩
    show (s.pipe addr flags).Tidy
    rw [hrun]
    exact ht
  · obtain ⟨hinst, hflags⟩ :=
      installs_pipeInstall s readFD writeFD nonblock (flags &&& oCloexec ≠ 0) mem v
    rw [← hrun] at hinst hflags
    refine ⟨hinst.tidy ht, fun fd hnews => ?_, nofun, nofun⟩
    have hmem := hinst.mem_of_new hnews.1 hnews.2
    have hfree : s.handleForFD fd = none := by
      rcases mem_pair.mp hmem with rfl | rfl
      · exact hread
      · exact hwrite
    exact (hflags fd hmem).trans (or_iff_left (not_flagged ht hfree))
  · obtain ⟨hentry, hhandle, hflag⟩ := rollback_same (handleForFD_eq_none.mp hread).1
      (handleForFD_eq_none.mp hwrite).1 nonblock (flags &&& oCloexec ≠ 0) mem
      (s.objs.newPipePair nonblock).1 (s.objs.newPipePair nonblock).2.1 v
    rw [← hrun] at hentry hhandle hflag
    exact ⟨ht.mono hhandle hflag, fun fd hnews => absurd ((hentry fd).trans hnews.1) hnews.2, nofun,
      nofun⟩

theorem sound_dup {op : TableOp} {oldFD newFD : Int} {flags : U32} {dup3 : Bool}
    (hrun : op.run host s = ((s.dupResult oldFD newFD flags dup3).2.ret (s.dupResult oldFD newFD flags dup3).1))
    (hnews : ∀ fd, op.News host s fd ↔ fd = newFD ∧ s.DupAccepts oldFD newFD flags)
    (hwants : op.wants = decide (dup3 = true ∧ flags &&& oCloexec ≠ 0)) (hop : op ≠ .closeCloexec) :
    op.Sound host s := by
  by_cases ha : s.DupAccepts oldFD newFD flags
  · obtain ⟨h, hh⟩ := Option.ne_none_iff_exists'.mp ha.2.2
    rw [dupResult_accepted dup3 ha hh] at hrun
    have hsame := closeReplaced_files s newFD h
    obtain ⟨hinst, hflag⟩ := installs_installClone (s.closeReplaced newFD h) newFD h
      (dup3 = true ∧ flags &&& oCloexec ≠ 0) (BitVec.ofInt 32 newFD)
    rw [← hrun] at hinst hflag
    have ht' : (s.closeReplaced newFD h).Tidy := by
      refine ht.mono (fun fd => handleForFD_congr (by rw [hsame.2]) ?_ (by rw [hsame.1])) fun fd hfd => ?_
      · rw [entry, entry, hsame.1]
      · rwa [flagged, hsame.1] at hfd
    refine ⟨hinst.tidy ht', fun fd hfd => ?_, fun h => absurd h hop, fun h => absurd h hop⟩
    rw [((hnews fd).mp hfd).1, hflag, hwants]
  · obtain ⟨v, hv, -⟩ := dupResult_refused dup3 ha
    rw [hv] at hrun
    refine ⟨?_, fun fd hfd => absurd ((hnews fd).mp hfd).2 ha, fun h => absurd h hop,
      fun h => absurd h hop⟩
    rw [hrun]
    exact ht

theorem sound_fcntl (fd : Int) (command argument : U32) :
    (TableOp.fcntl fd command argument).Sound host s := by
  rcases fcntl_cases s fd command argument with ⟨flags, v, hflags, hrun⟩ | ⟨h, _, start, v, -, rfl, hrun⟩
  · have hentry (k : Int) : (s.fcntl fd command argument).entry k = s.entry k := by
      rw [hrun]
      rfl
    refine ⟨?_, fun k hnews => absurd ((hentry k).trans hnews.1) hnews.2, nofun, nofun⟩
    show (s.fcntl fd command argument).Tidy
    rw [hrun]
    exact fun k hk => (hflags k hk).elim (ht k) id
  · obtain ⟨hinst, hflag⟩ := installs_installClone s (s.files.allocateFD s.kern.tty start) h
      (command = fDupFDCloexec) v
    rw [← hrun] at hinst hflag
    refine ⟨hinst.tidy ht, fun k hnews => ?_, nofun, nofun⟩
    obtain rfl := mem_singleton.mp (hinst.mem_of_new hnews.1 hnews.2)
    exact hflag

theorem tidy_removed (fd : Int) (objs : Objects) (v : U32) :
    ({ s with objs := objs, files := ((s.files.remove fd).clearClosed fd).clearCloexec fd }.ret v).Tidy := by
  intro fd' hflag
  have hfd : fd' ≠ fd := by
    rintro rfl
    simp [flagged] at hflag
  have hold : s.flagged fd' := by
    simpa [flagged, hfd] using hflag
  intro hnone
  refine ht fd' hold (Eq.trans (Eq.symm ?_) hnone)
  refine handleForFD_congr ?_ ?_ ?_
  · rfl
  · simp [entry, hfd]
  · simp [hfd]

/-- The terminal is closed: its flag stays. -/
theorem tidy_markClosed_iff {fd : Int} (he : s.entry fd = none) (v : U32) :
    ({ s with files := s.files.markClosed fd }.ret v).Tidy ↔ ¬ s.flagged fd := by
  constructor
  · intro h hflag
    refine h fd hflag (handleForFD_eq_none.mpr ⟨he, fun _ => ?_⟩)
    simp
  intro hno fd' hflag
  have hfd : fd' ≠ fd := by
    rintro rfl
    exact hno hflag
  intro hnone
  refine ht fd' hflag (Eq.trans (Eq.symm ?_) hnone)
  refine handleForFD_congr ?_ ?_ ?_
  · rfl
  · rfl
  · simp [hfd]

/-- `close` is sound unless it closes the terminal with the flag. -/
theorem sound_close_iff (fd : Int) :
    (TableOp.close fd).Sound host s ↔ ¬ (TableOp.close fd).Leaks s := by
  have hiff : (TableOp.close fd).Sound host s ↔ (s.close fd).Tidy :=
    ⟨fun h => h.tidy, fun h => ⟨h, nofun, nofun, nofun⟩⟩
  show _ ↔ ¬ (s.flagged fd ∧ s.entry fd = none ∧ s.handleForFD fd ≠ none)
  rw [hiff, close]
  rcases closeResult_cases s fd with ⟨h, he⟩ | ⟨he, hs, hc⟩ | hg
  · rw [closeResult_entry he]
    exact iff_of_true (tidy_removed ht fd _ _) fun hleak => Option.some_ne_none h (he.symm.trans hleak.2.1)
  · have hopen : s.handleForFD fd ≠ none := by
      intro hnone
      rw [(handleForFD_eq_none.mp hnone).2 hs] at hc
      cases hc
    rw [closeResult_terminal he hs hc, tidy_markClosed_iff ht he, and_iff_left ⟨he, hopen⟩]
  · rw [closeResult_gone hg]
    exact iff_of_true ht fun hleak => hleak.2.2 hg

omit ht in
/-- `CloseCloexec` is sound unless a number of the terminal has the flag. -/
theorem sound_closeCloexec_iff :
    TableOp.closeCloexec.Sound host s ↔ ¬ TableOp.closeCloexec.Leaks s := by
  show _ ↔ ¬ ∃ fd, s.flagged fd ∧ s.Standard fd
  constructor
  · rintro h ⟨fd, hflag, hs⟩
    have hclosed : s.closeCloexec.handleForFD fd = none := h.closes rfl fd hflag
    rw [handleForFD_closeCloexec, if_pos hflag, if_pos hs, Option.map_eq_none_iff] at hclosed
    exact hs.2 hclosed
  intro hno
  refine ⟨fun fd hflag => absurd hflag (closeCloexec_flags s fd), nofun, fun _ fd hflag => ?_,
    fun _ fd hflag => ?_⟩
  · show s.closeCloexec.handleForFD fd = none
    rw [handleForFD_closeCloexec, if_pos hflag, if_neg fun hs => hno ⟨fd, hflag, hs⟩]
  · show s.closeCloexec.handleForFD fd = s.handleForFD fd
    rw [handleForFD_closeCloexec, if_neg hflag]

theorem TableOp.sound_iff (op : TableOp) : op.Sound host s ↔ ¬ op.Leaks s := by
  cases op with
  | «open» pathAddr flags mode => exact iff_of_true (sound_open ht pathAddr flags mode) id
  | pipe addr flags => exact iff_of_true (sound_pipe ht addr flags) id
  | dup2 oldFD newFD =>
    refine iff_of_true (@sound_dup host s ht _ oldFD newFD 0 false rfl (fun _ => Iff.rfl) ?_ nofun) id
    exact (decide_eq_false fun h => Bool.false_ne_true h.1).symm
  | dup3 oldFD newFD flags =>
    refine iff_of_true (@sound_dup host s ht _ oldFD newFD flags true rfl (fun _ => Iff.rfl) ?_ nofun) id
    exact decide_eq_decide.mpr (and_iff_right rfl).symm
  | fcntl fd command argument => exact iff_of_true (sound_fcntl ht fd command argument) id
  | close fd => exact sound_close_iff ht fd
  | closeCloexec => exact sound_closeCloexec_iff
  | guest cpu mem => exact iff_of_true ⟨ht, nofun, nofun, nofun⟩ id

end Sound

/-! ## Runs -/

/-- A property of every operation of a run, in the state that it starts from. -/
def AllOps (host : Host) (P : KState → TableOp → Prop) : KState → List TableOp → Prop
  | _, [] => True
  | s, op :: ops => P s op ∧ AllOps host P (op.run host s) ops

theorem allOps_sound_iff (host : Host) (ops : List TableOp) : ∀ {s : KState}, s.Tidy →
    (AllOps host (fun s op => op.Sound host s) s ops ↔
      AllOps host (fun s op => ¬ op.Leaks s) s ops) := by
  induction ops with
  | nil => exact fun _ => Iff.rfl
  | cons op ops ih =>
    intro s ht
    refine (and_congr (op.sound_iff ht) Iff.rfl).trans (and_congr_right fun hno => ?_)
    exact ih ((op.sound_iff ht).mpr hno).tidy

/-- **When `FD_CLOEXEC` belongs to an open descriptor.**  For every run of operations from a new kernel,
with or without a terminal: every operation of it is sound exactly if none closes the terminal while
its number has the flag, and none is a `CloseCloexec` while a number of the terminal has it. -/
theorem cloexec_exact (host : Host) (fs : Bool) (tty : Option Nat) (cpu : CPU) (mem : Memory)
    (objs : Objects)
    (ops : List TableOp) :
    AllOps host (fun s op => op.Sound host s) (new fs tty cpu mem objs) ops ↔
      AllOps host (fun s op => ¬ op.Leaks s) (new fs tty cpu mem objs) ops := by
  refine allOps_sound_iff host ops fun fd hflag => ?_
  exact absurd (show (none : Option Bool) = some true from hflag) nofun

def flaggedInput : KState := fresh.fcntl 0 fSetFD 1

/-- With the flag on 0: after `close(0)` it is still set; a pipe made then without `O_CLOEXEC` has its
read end on 0, with the flag; and without the `close`, `CloseCloexec` leaves the terminal open. -/
theorem cloexec_stale :
    ((flaggedInput.close 0).handleForFD 0 = none ∧ (flaggedInput.close 0).flagged 0) ∧
      ((TableOp.pipe 100 0).News Host.silent (flaggedInput.close 0) 0 ∧
        ((flaggedInput.close 0).pipe 100 0).flagged 0) ∧
      flaggedInput.flagged 0 ∧ flaggedInput.closeCloexec.handleForFD 0 = some (.tty 0) := by
  refine ⟨by decide, ⟨⟨by decide, by decide⟩, by decide⟩, by decide⟩

end IshGo.Kernel
