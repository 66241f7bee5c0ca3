/-
# `IshGo.Kernel.Closed` — is a closed descriptor closed?

After a `close` that returns `0` a descriptor should stand for nothing, and stay so
until something is installed on it.  Two operations break this where there is a
terminal, because they delete the mark in `closedFDs` that keeps the implicit terminal
away from `0` to `2`:

    close(fd) of an entry           `closeDescriptor` removes the entry and the mark
    CloseCloexec                    removes the mark of a closed `fd` that has its
                                    close-on-exec flag
-/
import IshGo.Kernel.Table

namespace IshGo.Kernel

open I386 KState

variable {fd : Int} {s s' : KState}

/-! ## Gone -/

/-- A descriptor that stands for nothing: it has no handle, and `close` refuses it. -/
def KState.Gone (s : KState) (fd : Int) : Prop :=
  s.handleForFD fd = none ∧ (s.closeResult fd).1 = ebadf

/-- The `close` that brings the terminal back: of an entry on a standard number. -/
def KState.ClosesRedirected (s : KState) (fd : Int) : Prop := s.Standard fd ∧ s.entry fd ≠ none

instance (s : KState) (fd : Int) : Decidable (s.ClosesRedirected fd) :=
  inferInstanceAs (Decidable (_ ∧ _))

def TableOp.Revives (s : KState) (fd : Int) : TableOp → Prop
  | .closeCloexec => s.Standard fd ∧ s.files.fdCloexec.lookup fd = some true
  | _ => False

/-- The operation installs `fd`, which had no entry. -/
def TableOp.Installs (host : Host) (s : KState) (fd : Int) (op : TableOp) : Prop :=
  (op.run host s).entry fd ≠ none

instance (host : Host) (s : KState) (fd : Int) (op : TableOp) : Decidable (op.Installs host s fd) :=
  inferInstanceAs (Decidable (_ ≠ _))

/-- States reached by operations that neither install `fd` nor revive it. -/
inductive Undisturbed (host : Host) (fd : Int) (s : KState) : KState → Prop
  | refl : Undisturbed host fd s s
  | step {s' : KState} (op : TableOp) : Undisturbed host fd s s' → ¬ op.Installs host s' fd →
      ¬ op.Revives s' fd → Undisturbed host fd s (op.run host s')

/-! ## Right after `close` -/

theorem gone_iff : s.Gone fd ↔ s.handleForFD fd = none := by
  refine ⟨And.left, fun h => ⟨h, ?_⟩⟩
  rw [closeResult_gone h]

theorem close_gone_iff (h : (s.closeResult fd).1 = 0) : (s.close fd).Gone fd ↔ ¬ s.ClosesRedirected fd := by
  have hclose : ∀ r, s.closeResult fd = r → s.close fd = r.2.ret r.1 := by
    rintro r rfl
    rfl
  rw [gone_iff, handleForFD_eq_none, KState.ClosesRedirected]
  rcases closeResult_cases s fd with ⟨f, he⟩ | ⟨he, hs, hc⟩ | hg
  · -- the entry goes, and the mark with it
    rw [hclose _ (closeResult_entry he)]
    simp [KState.ret, KState.setReg, entry, KState.Standard] at he ⊢
    simp [he]
  · rw [hclose _ (closeResult_terminal he hs hc)]
    simp [KState.ret, KState.setReg, entry, KState.Standard] at he ⊢
    simp [he]
  · rw [closeResult_gone hg] at h
    exact absurd (show ebadf = 0 from h) (by decide)

/-! ## Later -/

/-- If `fd` has no entry before and after, its mark is kept. -/
structure KeepsMark (fd : Int) (s s' : KState) : Prop where
  tty : s'.kern.tty = s.kern.tty
  mark : s.entry fd = none → s'.entry fd = none → s.files.closedFDs fd = true →
    s'.files.closedFDs fd = true

theorem KeepsMark.gone (h : KeepsMark fd s s') (hg : s.Gone fd) (he' : s'.entry fd = none) : s'.Gone fd := by
  rw [gone_iff, handleForFD_eq_none] at hg ⊢
  refine ⟨he', fun hs => h.mark hg.1 he' (hg.2 ?_)⟩
  exact ⟨hs.1, h.tty ▸ hs.2⟩

theorem KeepsMark.of_files (hk : s'.kern = s.kern)
    (hc : s'.files.closedFDs = s.files.closedFDs) : KeepsMark fd s s' :=
  ⟨by rw [hk], fun _ _ hm => by rw [hc]; exact hm⟩

/-- A clone installed on another number keeps the mark; on `fd` it is an entry. -/
theorem keepsMark_installClone (fd fd' : Int) (s : KState) (h : Handle) (cloexec : Bool) (v : U32) :
    KeepsMark fd s ((s.installClone fd' h cloexec).ret v) := by
  refine ⟨rfl, fun _ he' hm => ?_⟩
  by_cases hfd : fd = fd'
  · subst hfd
    cases cloexec <;> simp [installClone, KState.ret, KState.setReg, entry] at he'
  · cases cloexec <;> simpa [installClone, KState.ret, KState.setReg, hfd] using hm

theorem keepsMark_dup (fd newFD : Int) (s : KState) (h : Handle) (cloexec : Bool) (v : U32) :
    KeepsMark fd s (((s.closeReplaced newFD h).installClone newFD h cloexec).ret v) := by
  have hsame := closeReplaced_files s newFD h
  obtain ⟨htty, hmark⟩ := keepsMark_installClone fd newFD (s.closeReplaced newFD h) h cloexec v
  rw [entry, hsame.1] at hmark
  exact ⟨htty.trans (by rw [hsame.2]), hmark⟩

theorem keepsMark_open (fd : Int) (host : Host) (s : KState) (pathAddr flags mode : U32) :
    KeepsMark fd s (s.open host pathAddr flags mode) := by
  obtain ⟨objs, _, ⟨v, hrun, -⟩ | ⟨h, _, hrun⟩⟩ := open_cases host s pathAddr flags mode
  · rw [hrun]
    exact .of_files rfl rfl
  rw [hrun]
  refine ⟨rfl, fun _ he' hm => ?_⟩
  simp only [openInstall, KState.ret, KState.setReg, entry, fds_clearClosed,
    lookup_install, closedFDs_clearClosed, closedFDs_install] at he' ⊢
  split at he'
  · cases he'
  · rename_i hfd
    rw [if_neg hfd]
    exact hm

theorem keepsMark_pipe (fd : Int) (s : KState) (addr flags : U32) : KeepsMark fd s (s.pipe addr flags) := by
  rcases pipe_cases s addr flags with hrun | ⟨r, w, nonblock, cloexec, mem, v, _, _, _, _, hrun | hrun⟩
  · rw [hrun]
    exact .of_files rfl rfl
  · rw [hrun]
    exact .of_files rfl (by cases cloexec <;> rfl)
  · rw [hrun]
    exact .of_files rfl (by cases cloexec <;> rfl)

theorem keepsMark_fcntl (fd : Int) (s : KState) (fd' : Int) (command argument : U32) :
    KeepsMark fd s (s.fcntl fd' command argument) := by
  rcases fcntl_cases s fd' command argument with ⟨_, v, -, hrun⟩ | ⟨h, cloexec, start, v, -, -, hrun⟩
  · rw [hrun]
    exact .of_files rfl rfl
  · rw [hrun]
    exact keepsMark_installClone fd _ s h cloexec v

theorem keepsMark_close (fd : Int) (s : KState) (fd' : Int) : KeepsMark fd s (s.close fd') := by
  rw [close]
  rcases closeResult_cases s fd' with ⟨f, he⟩ | ⟨he, hs, hc⟩ | hg
  · rw [closeResult_entry he]
    refine ⟨rfl, fun hnone _ hm => ?_⟩
    have hfd : fd ≠ fd' := by
      rintro rfl
      rw [he] at hnone
      cases hnone
    simpa [KState.ret, KState.setReg, hfd] using hm
  · rw [closeResult_terminal he hs hc]
    refine ⟨rfl, fun _ _ hm => ?_⟩
    simp [KState.ret, KState.setReg, hm]
  · rw [closeResult_gone hg]
    exact .of_files rfl rfl

theorem keepsMark_dupResult (fd : Int) (s : KState) (oldFD newFD : Int) (flags : U32) (dup3 : Bool) :
    KeepsMark fd s ((s.dupResult oldFD newFD flags dup3).2.ret (s.dupResult oldFD newFD flags dup3).1) := by
  rcases dupResult_cases s oldFD newFD flags dup3 with ⟨v, hr⟩ | ⟨h, cloexec, _, _, hr⟩
  · rw [hr]
    exact .of_files rfl rfl
  · rw [hr]
    exact keepsMark_dup fd newFD s h cloexec _

/-- Every operation but `CloseCloexec`. -/
theorem TableOp.keepsMark (host : Host) (s : KState) (fd : Int) (op : TableOp)
    (hop : op ≠ .closeCloexec) : KeepsMark fd s (op.run host s) := by
  cases op with
  | «open» pathAddr flags mode => exact keepsMark_open fd host s pathAddr flags mode
  | pipe addr flags => exact keepsMark_pipe fd s addr flags
  | dup2 oldFD newFD => exact keepsMark_dupResult fd s oldFD newFD 0 false
  | dup3 oldFD newFD flags => exact keepsMark_dupResult fd s oldFD newFD flags true
  | fcntl fd' command argument => exact keepsMark_fcntl fd s fd' command argument
  | close fd' => exact keepsMark_close fd s fd'
  | closeCloexec => exact absurd rfl hop
  | guest cpu mem => exact .of_files rfl rfl

theorem closeCloexec_gone_iff (hg : s.Gone fd) :
    s.closeCloexec.Gone fd ↔ ¬ (s.Standard fd ∧ s.files.fdCloexec.lookup fd = some true) := by
  rw [gone_iff, handleForFD_eq_none] at hg ⊢
  rw [closeCloexec_entry, closeCloexec_closedFDs, KState.Standard, closeCloexec_kern, hg.1]
  by_cases hx : s.files.fdCloexec.lookup fd = some true
  · simp [hx, KState.Standard]
  · simpa [hx, KState.Standard] using hg.2

/-- One operation that does not install `fd`. -/
theorem TableOp.gone_iff_not_revives (host : Host) {op : TableOp}
    (hg : s.Gone fd) (hi : ¬ op.Installs host s fd) : (op.run host s).Gone fd ↔ ¬ op.Revives s fd := by
  have he' : (op.run host s).entry fd = none := not_not.mp hi
  by_cases hop : op = .closeCloexec
  · subst hop
    exact closeCloexec_gone_iff hg
  have hr : ¬ op.Revives s fd := by
    cases op with
    | closeCloexec => exact absurd rfl hop
    | _ => exact id
  exact ⟨fun _ => hr, fun _ => (op.keepsMark host s fd hop).gone hg he'⟩

theorem Undisturbed.gone {host : Host} (h : Undisturbed host fd s s') (hg : s.Gone fd) : s'.Gone fd := by
  induction h with
  | refl => exact hg
  | step op _ hi hr ih => exact (op.gone_iff_not_revives host ih hi).mpr hr

/-- For every state, and every `close` that returns `0`: the descriptor is gone exactly
if the `close` is not one of an entry on a standard number.  If it is gone it stays gone
over every sequence of operations none of which installs or revives it; and at each
point of such a sequence the next operation that does not install it leaves it gone
exactly if it does not revive it. -/
theorem closed_stays_closed (host : Host) {s : KState} {fd : Int} (h : (s.closeResult fd).1 = 0) :
    ((s.close fd).Gone fd ↔ ¬ s.ClosesRedirected fd) ∧
      (¬ s.ClosesRedirected fd → ∀ s', Undisturbed host fd (s.close fd) s' →
        s'.Gone fd ∧ ∀ op : TableOp, ¬ op.Installs host s' fd →
          ((op.run host s').Gone fd ↔ ¬ op.Revives s' fd)) := by
  refine ⟨close_gone_iff h, fun hc s' hs' => ?_⟩
  have hg : s'.Gone fd := hs'.gone ((close_gone_iff h).mpr hc)
  exact ⟨hg, fun op hi => op.gone_iff_not_revives host hg hi⟩

def fresh : KState := new true (some 0) CPU.new (Memory.new 4096) Objects.new

/-- A duplicate of standard input on `5`, closed; then another one on `6`. -/
theorem closed_stays_closed_five :
    ((fresh.dup2 0 5).closeResult 5).1 = 0 ∧ (((fresh.dup2 0 5).close 5).dup2 0 6).Gone 5 :=
  ⟨by decide,
    ((closed_stays_closed Host.silent (by decide)).2 (by decide) _
      (.step (.dup2 0 6) .refl (by decide) id)).1⟩

/-- `dup2(0, 1)` and `close(1)`: the terminal is back on `1`.  And with `FD_CLOEXEC` set
on `0`, `close(0)` works, and `CloseCloexec` brings the terminal back. -/
theorem redirected_close_reopens_terminal :
    (((fresh.dup2 0 1).closeResult 1).1 = 0 ∧
        ((fresh.dup2 0 1).close 1).handleForFD 1 = some (.tty 0)) ∧
      (((fresh.fcntl 0 fSetFD 1).closeResult 0).1 = 0 ∧
        ((fresh.fcntl 0 fSetFD 1).close 0).handleForFD 0 = none ∧
        ((fresh.fcntl 0 fSetFD 1).close 0).closeCloexec.handleForFD 0 = some (.tty 0)) := by
  decide

end IshGo.Kernel
