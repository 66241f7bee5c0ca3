/-
# `IshGo.Kernel.Table` — what the descriptor operations can do

One statement for each operation of `IshGo.Kernel.Descriptors`: the few shapes that the
state can have afterwards.  What holds of tables over whole runs is derived from these
statements, not from the definitions.
-/
import IshGo.Kernel.Descriptors

namespace IshGo.Kernel

open I386 KState List

variable {h : Handle} {s : KState}
variable {f : Files} {newFD oldFD : Int}
variable {fd : Int} {flags : U32} {tty : Option Nat}

/-! ## Handles and marks -/

def KState.Standard (s : KState) (fd : Int) : Prop := (0 ≤ fd ∧ fd ≤ 2) ∧ s.kern.tty ≠ none

instance (s : KState) (fd : Int) : Decidable (s.Standard fd) := inferInstanceAs (Decidable (_ ∧ _))

theorem handleForFD_eq_none : s.handleForFD fd = none ↔
      s.entry fd = none ∧ (s.Standard fd → s.files.closedFDs fd = true) := by
  cases he : s.entry fd with
  | some f => simp [handleForFD_entry he]
  | none =>
    rw [handleForFD_implicit he, KState.Standard]
    cases s.files.closedFDs fd with
    | true => simp
    | false =>
      by_cases hfd : 0 ≤ fd ∧ fd ≤ 2
      · simp [hfd]
      · simp [hfd]

/-- What a number stands for depends on its entry and its mark only. -/
theorem handleForFD_congr {s' : KState} (htty : s'.kern.tty = s.kern.tty)
    (hentry : s'.entry fd = s.entry fd) (hclosed : s'.files.closedFDs fd = s.files.closedFDs fd) :
    s'.handleForFD fd = s.handleForFD fd := by
  unfold entry at hentry
  unfold handleForFD Files.handle
  rw [hentry, hclosed, htty]

theorem handleForFD_some (hh : s.handleForFD fd = some h) : s.entry fd = some h ∨ ∃ t, h = .tty t := by
  cases he : s.entry fd with
  | some f =>
    rw [handleForFD_entry he] at hh
    exact .inl hh
  | none =>
    rw [handleForFD_implicit he] at hh
    split at hh
    · cases hh
    split at hh
    · obtain ⟨t, _, rfl⟩ := Option.map_eq_some_iff.mp hh
      exact .inr ⟨t, rfl⟩
    · cases hh

/-! ## Close -/

theorem closeTTY_standard (hs : s.Standard fd) (hc : s.files.closedFDs fd = false) :
    s.closeTTY fd = (true, { s with files := s.files.markClosed fd }) := by
  rw [closeTTY, if_neg]
  rintro (h | h | h | h)
  · exact absurd hs.1.1 (by omega)
  · exact absurd hs.1.2 (by omega)
  · exact hs.2 h
  · rw [hc] at h
    cases h

theorem closeTTY_other (h : s.Standard fd → s.files.closedFDs fd = true) : s.closeTTY fd = (false, s) := by
  rw [closeTTY, if_pos]
  by_contra hc
  simp only [not_or, not_lt] at hc
  exact hc.2.2.2 (h ⟨⟨hc.1, hc.2.1⟩, hc.2.2.1⟩)

theorem closeResult_entry (he : s.entry fd = some h) : s.closeResult fd =
      (0, { s with
        objs := s.objs.close h
        files := ((s.files.remove fd).clearClosed fd).clearCloexec fd }) := by
  simp only [closeResult, closeDescriptor, he, if_true]

theorem closeResult_terminal (he : s.entry fd = none) (hs : s.Standard fd)
    (hc : s.files.closedFDs fd = false) :
    s.closeResult fd = (0, { s with files := s.files.markClosed fd }) := by
  simp only [closeResult, closeDescriptor, he, Bool.false_eq_true, if_false, closeTTY_standard hs hc, if_true]

theorem closeResult_gone (h : s.handleForFD fd = none) : s.closeResult fd = (ebadf, s) := by
  obtain ⟨he, hc⟩ := handleForFD_eq_none.mp h
  simp only [closeResult, closeDescriptor, he, Bool.false_eq_true, if_false, closeTTY_other hc]

theorem closeResult_cases (s : KState) (fd : Int) :
    (∃ h, s.entry fd = some h) ∨
      (s.entry fd = none ∧ s.Standard fd ∧ s.files.closedFDs fd = false) ∨
      s.handleForFD fd = none := by
  cases he : s.entry fd with
  | some h => exact .inl ⟨h, rfl⟩
  | none =>
    refine .inr ?_
    by_cases hs : s.Standard fd ∧ s.files.closedFDs fd = false
    · exact .inl ⟨rfl, hs⟩
    · refine .inr (handleForFD_eq_none.mpr ⟨he, fun h => ?_⟩)
      by_contra hc
      exact hs ⟨h, Bool.eq_false_iff.mpr hc⟩

/-! ## Dup and fcntl -/

/-- `iosys.Dup` gets as far as `dupInstall`. -/
def KState.DupAccepts (s : KState) (oldFD newFD : Int) (flags : U32) : Prop :=
  ¬ (newFD < 0 ∨ oldFD < 0 ∨ (flags ≠ 0 ∧ flags ≠ oCloexec)) ∧ oldFD ≠ newFD ∧
    s.handleForFD oldFD ≠ none

instance (s : KState) (oldFD newFD : Int) (flags : U32) : Decidable (s.DupAccepts oldFD newFD flags) :=
  inferInstanceAs (Decidable (_ ∧ _))

theorem dupResult_refused (dup3 : Bool)
    (h : ¬ s.DupAccepts oldFD newFD flags) : ∃ v, s.dupResult oldFD newFD flags dup3 = (v, s) ∧
      (v.toInt < 0 ∨ v = BitVec.ofInt 32 newFD ∧ oldFD = newFD ∧ s.handleForFD oldFD ≠ none) := by
  rw [dupResult]
  split
  · exact ⟨einval, rfl, .inl (by decide)⟩
  split
  · rename_i heq
    split
    · rename_i hvalid
      exact ⟨_, rfl, .inr ⟨rfl, heq, Option.isSome_iff_ne_none.mp hvalid.2⟩⟩
    · exact ⟨einval, rfl, .inl (by decide)⟩
  rename_i hargs hne
  have hnone : s.handleForFD oldFD = none := by
    by_contra hh
    exact h ⟨hargs, hne, hh⟩
  rw [if_pos (by simp [validFD, hnone])]
  exact ⟨ebadf, rfl, .inl (by decide)⟩

theorem dupResult_accepted (dup3 : Bool)
    (ha : s.DupAccepts oldFD newFD flags) (hh : s.handleForFD oldFD = some h) :
    s.dupResult oldFD newFD flags dup3 =
      (BitVec.ofInt 32 newFD, (s.closeReplaced newFD h).installClone newFD h
        (dup3 ∧ flags &&& oCloexec ≠ 0)) := by
  have hv : ¬ s.validFD oldFD = false := by simp [validFD, hh]
  rw [dupResult, if_neg ha.1, if_neg ha.2.1, if_neg hv]
  simp only [dupInstall, hh]

theorem dupResult_cases (s : KState) (oldFD newFD : Int) (flags : U32) (dup3 : Bool) :
    (∃ v, s.dupResult oldFD newFD flags dup3 = (v, s)) ∨
      ∃ h cloexec, s.handleForFD oldFD = some h ∧ oldFD ≠ newFD ∧
        s.dupResult oldFD newFD flags dup3 =
          (BitVec.ofInt 32 newFD, (s.closeReplaced newFD h).installClone newFD h cloexec) := by
  by_cases ha : s.DupAccepts oldFD newFD flags
  · obtain ⟨h, hh⟩ := Option.ne_none_iff_exists'.mp ha.2.2
    exact .inr ⟨h, _, hh, ha.2.1, dupResult_accepted dup3 ha hh⟩
  · obtain ⟨v, hv, -⟩ := dupResult_refused dup3 ha
    exact .inl ⟨v, hv⟩

theorem closeReplaced_files (s : KState) (fd : Int) (h : Handle) :
    (s.closeReplaced fd h).files = s.files ∧ (s.closeReplaced fd h).kern = s.kern := by
  rw [closeReplaced]
  split
  · split
    · exact ⟨rfl, rfl⟩
    · exact ⟨rfl, rfl⟩
  · exact ⟨rfl, rfl⟩

theorem fcntl_cases (s : KState) (fd : Int) (command argument : U32) :
    (∃ flags v, (∀ k, flags.lookup k = some true → s.files.fdCloexec.lookup k = some true ∨ s.handleForFD k ≠ none) ∧
        s.fcntl fd command argument = { s with files := { s.files with fdCloexec := flags } }.ret v) ∨
      ∃ h cloexec start v, s.handleForFD fd = some h ∧ cloexec = decide (command = fDupFDCloexec) ∧
        s.fcntl fd command argument =
          (s.installClone (s.files.allocateFD s.kern.tty start) h cloexec).ret v := by
  have hsame (v : U32) : ∃ flags w,
      (∀ k, flags.lookup k = some true → s.files.fdCloexec.lookup k = some true ∨ s.handleForFD k ≠ none) ∧
        s.ret v = { s with files := { s.files with fdCloexec := flags } }.ret w :=
    ⟨s.files.fdCloexec, v, fun _ h => .inl h, rfl⟩
  rw [fcntl]
  split
  · rw [fcntlFlags]
    refine .inl ?_
    split
    · exact hsame _
    rename_i hvalid
    split
    · exact hsame _
    split
    · split
      · exact hsame _
      split
      · refine ⟨_, _, fun k hk => ?_, rfl⟩
        by_cases hfd : k = fd
        · subst hfd
          exact .inr fun hnone => hvalid (by rw [validFD, hnone]; rfl)
        · exact .inl ((AList.lookup_insert_ne hfd).symm.trans hk)
      · refine ⟨_, _, fun k hk => ?_, rfl⟩
        by_cases hfd : k = fd
        · subst hfd
          exact absurd (hk.symm.trans (AList.lookup_erase k _)) nofun
        · exact .inl ((AList.lookup_erase_ne hfd).symm.trans hk)
    · exact hsame _
  · split
    · exact .inl (hsame _)
    rw [fcntlDup]
    split
    · exact .inl (hsame _)
    · cases hh : s.handleForFD fd with
      | none => exact .inl (hsame _)
      | some h => exact .inr ⟨h, _, _, _, rfl, rfl, rfl⟩

/-! ## Allocation -/

namespace Files

theorem taken_mem (h0 : 0 ≤ fd) (h : f.taken tty fd = true) : fd ∈ f.fds.keys ++ [0, 1, 2] := by
  simp only [taken, Bool.or_eq_true, Bool.and_eq_true, decide_eq_true_eq] at h
  rcases h with h | ⟨⟨h, _⟩, _⟩
  · exact mem_append_left _ (AList.mem_keys.mp (AList.lookup_isSome.mp h))
  · have : fd = 0 ∨ fd = 1 ∨ fd = 2 := by omega
    rcases this with rfl | rfl | rfl <;> simp

theorem allocateLoop_free (f : Files) (tty : Option Nat) (n : Nat) :
    ∀ fd : Int, (f.taken tty (f.allocateLoop tty n fd) = false ∧ fd ≤ f.allocateLoop tty n fd) ∨
      (f.allocateLoop tty n fd = fd + n ∧ ∀ i : Nat, i < n → f.taken tty (fd + i) = true) := by
  induction n with
  | zero => exact fun fd => .inr ⟨by simp [allocateLoop], fun i hi => absurd hi (Nat.not_lt_zero i)⟩
  | succ n ih =>
    intro fd
    rw [allocateLoop]
    by_cases ht : f.taken tty fd = true
    · rw [if_pos ht]
      rcases ih (fd + 1) with ⟨hfree, hle⟩ | ⟨heq, hall⟩
      · exact .inl ⟨hfree, by omega⟩
      refine .inr ⟨by rw [heq]; push_cast; omega, fun i hi => ?_⟩
      cases i with
      | zero => simpa using ht
      | succ i =>
        have := hall i (by omega)
        rw [show fd + ((i + 1 : Nat) : Int) = fd + 1 + (i : Int) by push_cast; omega]
        exact this
    · rw [if_neg ht]
      exact .inl ⟨Bool.eq_false_iff.mpr ht, le_refl fd⟩

theorem length_le_of_taken {n : Nat} (h0 : 0 ≤ fd)
    (h : ∀ i : Nat, i < n → f.taken tty (fd + i) = true) : n ≤ f.fds.entries.length + 3 := by
  have hnodup : ((range n).map fun i : Nat => fd + i).Nodup :=
    List.Nodup.map (fun a b hab => Int.ofNat.inj (Int.add_left_cancel hab)) nodup_range
  have hsub : ((range n).map fun i : Nat => fd + i) ⊆ f.fds.keys ++ [0, 1, 2] := by
    intro x hx
    obtain ⟨i, hi, rfl⟩ := mem_map.mp hx
    exact taken_mem (by omega) (h i (mem_range.mp hi))
  have hle := (subperm_of_subset hnodup hsub).length_le
  simpa [AList.keys, keys] using hle

/-- `allocateFD` returns a number that is free and not below `start`. -/
theorem allocateFD_free (f : Files) (tty : Option Nat) (start : Int) :
    f.taken tty (f.allocateFD tty start) = false ∧ start ≤ f.allocateFD tty start ∧
      0 ≤ f.allocateFD tty start := by
  rw [allocateFD]
  generalize hs : (if start < 0 then 0 else start) = first
  have h0 : 0 ≤ first ∧ start ≤ first := by
    split at hs <;> omega
  rcases allocateLoop_free f tty (f.fds.entries.length + 3) first with ⟨hfree, hle⟩ | ⟨heq, hall⟩
  · exact ⟨hfree, by omega, by omega⟩
  refine ⟨?_, by rw [heq]; push_cast; omega, by rw [heq]; push_cast; omega⟩
  by_contra ht
  rw [Bool.not_eq_false, heq] at ht
  have hn : f.fds.entries.length + 3 + 1 ≤ f.fds.entries.length + 3 := by
    refine @length_le_of_taken f first tty _ h0.1 fun i hi => ?_
    rcases Nat.lt_succ_iff_lt_or_eq.mp hi with hlt | rfl
    · exact hall i hlt
    · exact ht
  omega

theorem allocateFD_lookup (f : Files) (tty : Option Nat) (start : Int) :
    f.fds.lookup (f.allocateFD tty start) = none := by
  have h := (f.allocateFD_free tty start).1
  simp only [taken, Bool.or_eq_false_iff] at h
  simpa using h.1

end Files

/-! ## Pipe and open -/

/-- `allocateFD` passes over the numbers that stand for something. -/
theorem taken_iff (h0 : 0 ≤ fd) : s.files.taken s.kern.tty fd = true ↔ s.handleForFD fd ≠ none := by
  rw [ne_eq, handleForFD_eq_none, entry, KState.Standard, Files.taken]
  cases s.files.fds.lookup fd <;> cases s.kern.tty <;> cases s.files.closedFDs fd <;> simp [h0]

theorem handleForFD_allocateFD (s : KState) (start : Int) :
    s.handleForFD (s.files.allocateFD s.kern.tty start) = none := by
  obtain ⟨hfree, -, hpos⟩ := s.files.allocateFD_free s.kern.tty start
  by_contra hne
  rw [(taken_iff hpos).mpr hne] at hfree
  cases hfree

theorem pipeReturn_cases (s : KState) (addr : U32) (readFD writeFD : Int)
    (readEnd writeEnd : Handle) :
    ∃ mem v, s.pipeReturn addr readFD writeFD readEnd writeEnd = { s with mem := mem }.ret v ∨
      s.pipeReturn addr readFD writeFD readEnd writeEnd =
        ({ s with mem := mem }.pipeRollback readFD writeFD readEnd writeEnd).ret v := by
  simp only [pipeReturn]
  cases s.mem.write32 addr (BitVec.ofInt 32 readFD) with
  | error e => exact ⟨s.mem, _, .inr rfl⟩
  | ok mem =>
    simp only
    cases mem.write32 (addr + 4) (BitVec.ofInt 32 writeFD) with
    | error e => exact ⟨mem, _, .inr rfl⟩
    | ok mem' => exact ⟨mem', _, .inl rfl⟩

theorem pipe_cases (s : KState) (addr flags : U32) :
    s.pipe addr flags = s.ret einval ∨
      ∃ readFD writeFD nonblock cloexec mem v,
        s.handleForFD readFD = none ∧ s.handleForFD writeFD = none ∧ readFD ≠ writeFD ∧
          cloexec = decide (flags &&& oCloexec ≠ 0) ∧
          (s.pipe addr flags =
              { s.pipeInstall readFD writeFD nonblock cloexec with mem := mem }.ret v ∨
            s.pipe addr flags =
              ({ s.pipeInstall readFD writeFD nonblock cloexec with mem := mem }.pipeRollback
                readFD writeFD (s.objs.newPipePair nonblock).1
                (s.objs.newPipePair nonblock).2.1).ret v) := by
  rw [pipe]
  split
  · exact .inl rfl
  have hlt := (s.files.allocateFD_free s.kern.tty (s.files.allocateFD s.kern.tty 0 + 1)).2.1
  obtain ⟨mem, v, hret⟩ := pipeReturn_cases
    (s.pipeInstall (s.files.allocateFD s.kern.tty 0)
      (s.files.allocateFD s.kern.tty (s.files.allocateFD s.kern.tty 0 + 1))
      (flags &&& oNonblock ≠ 0) (flags &&& oCloexec ≠ 0))
    addr (s.files.allocateFD s.kern.tty 0)
    (s.files.allocateFD s.kern.tty (s.files.allocateFD s.kern.tty 0 + 1))
    (s.objs.newPipePair (flags &&& oNonblock ≠ 0)).1
    (s.objs.newPipePair (flags &&& oNonblock ≠ 0)).2.1
  exact .inr ⟨_, _, _, _, mem, v, handleForFD_allocateFD s _, handleForFD_allocateFD s _, by omega, rfl, hret⟩

structure Objects.SamePipes (o o' : Objects) : Prop where
  pipes : o'.pipes = o.pipes
  ends : o'.ends = o.ends
  nextPipe : o'.nextPipe = o.nextPipe
  nextEnd : o'.nextEnd = o.nextEnd

theorem openResolved_pipes (host : Host) (tty : Option Nat) (o : Objects) (name path : List U8)
    (flags mode : U32) :
    o.SamePipes (openResolved host tty o name path flags mode).2 ∧
      ∀ id, (openResolved host tty o name path flags mode).1 ≠ .ok (.pipe id) := by
  simp only [openResolved]
  split
  · exact ⟨⟨rfl, rfl, rfl, rfl⟩, nofun⟩
  split
  · exact ⟨⟨rfl, rfl, rfl, rfl⟩, nofun⟩
  split
  · cases tty with
    | none | some => exact ⟨⟨rfl, rfl, rfl, rfl⟩, nofun⟩
  · cases host.openFile o.tick path (openFlags flags mode) with
    | error | ok => exact ⟨⟨rfl, rfl, rfl, rfl⟩, nofun⟩

theorem openHandle_pipes (host : Host) (tty : Option Nat) (o : Objects) (name : List U8)
    (flags mode : U32) :
    o.SamePipes (openHandle host tty o name flags mode).2 ∧
      ∀ id, (openHandle host tty o name flags mode).1 ≠ .ok (.pipe id) := by
  rw [openHandle]
  cases host.readVirtual o.tick name with
  | error e => exact ⟨⟨rfl, rfl, rfl, rfl⟩, nofun⟩
  | ok data =>
    cases data with
    | some data => exact ⟨⟨rfl, rfl, rfl, rfl⟩, nofun⟩
    | none =>
      simp only
      cases host.resolve o.nextTick.tick name with
      | error e => exact ⟨⟨rfl, rfl, rfl, rfl⟩, nofun⟩
      | ok path =>
        obtain ⟨⟨hp, he, hnp, hne⟩, hh⟩ :=
          openResolved_pipes host tty o.nextTick.nextTick name path flags mode
        exact ⟨⟨hp, he, hnp, hne⟩, hh⟩

theorem openHandle_error {host : Host} {o : Objects} {name : List U8} {mode e : U32}
    (h : (openHandle host tty o name flags mode).1 = .error e) : e.toInt < 0 := by
  unfold openHandle openResolved at h
  dsimp only at h
  repeat' split at h
  all_goals cases h
  all_goals decide

theorem open_cases (host : Host) (s : KState) (pathAddr flags mode : U32) :
    ∃ objs, s.objs.SamePipes objs ∧
      ((∃ v, s.open host pathAddr flags mode = { s with objs := objs }.ret v ∧ v.toInt < 0) ∨
        ∃ h, (∀ id, h ≠ .pipe id) ∧
          s.open host pathAddr flags mode = { s with objs := objs }.openInstall h) := by
  rw [KState.open]
  cases s.mem.readCString pathAddr 4096 with
  | none => exact ⟨s.objs, ⟨rfl, rfl, rfl, rfl⟩, .inl ⟨efault, rfl, by decide⟩⟩
  | some name =>
    simp only
    split
    · exact ⟨s.objs, ⟨rfl, rfl, rfl, rfl⟩, .inl ⟨efault, rfl, by decide⟩⟩
    obtain ⟨hsame, hpipe⟩ :=
      openHandle_pipes host s.kern.tty s.objs (s.guestPath name) flags mode
    refine ⟨_, hsame, ?_⟩
    cases hr : (openHandle host s.kern.tty s.objs (s.guestPath name) flags mode).1 with
    | error e => exact .inl ⟨e, rfl, openHandle_error hr⟩
    | ok h => exact .inr ⟨h, fun id hid => hpipe id (hid ▸ hr), rfl⟩

/-! ## Exec and exit -/

@[simp] theorem closeCloexecAt_entry (s : KState) (fd fd' : Int) (cloexec : Bool) :
    (s.closeCloexecAt fd cloexec).entry fd' =
      if fd' = fd ∧ cloexec = true then none else s.entry fd' := by
  cases cloexec with
  | false => simp [closeCloexecAt]
  | true =>
    simp only [closeCloexecAt, entry, and_true]
    cases he : s.files.fds.lookup fd with
    | some h => simp
    | none =>
      by_cases hfd : fd' = fd
      · subst hfd
        simp [he]
      · simp [hfd]

@[simp] theorem closeCloexecAt_closedFDs (s : KState) (fd fd' : Int) (cloexec : Bool) :
    (s.closeCloexecAt fd cloexec).files.closedFDs fd' =
      if fd' = fd ∧ cloexec = true then false else s.files.closedFDs fd' := by
  cases cloexec with
  | false => simp [closeCloexecAt]
  | true =>
    simp only [closeCloexecAt, and_true]
    cases s.entry fd with
    | some h => simp
    | none => simp

@[simp] theorem closeCloexecAt_kern (s : KState) (fd : Int) (cloexec : Bool) :
    (s.closeCloexecAt fd cloexec).kern = s.kern := by
  rw [closeCloexecAt]
  split
  · rfl
  · cases s.entry fd with
    | some h => rfl
    | none => rfl

theorem foldl_cloexec {α : Type} (get : KState → α) (fd : Int) (zero : α)
    (hturn : ∀ s fd' cloexec, get (s.closeCloexecAt fd' cloexec) =
      if fd = fd' ∧ cloexec = true then zero else get s)
    (l : List (Σ _ : Int, Bool)) :
    ∀ s : KState, get (l.foldl (fun s e => s.closeCloexecAt e.1 e.2) s) =
      if ⟨fd, true⟩ ∈ l then zero else get s := by
  induction l with
  | nil => exact fun s => rfl
  | cons e l ih =>
    intro s
    rw [foldl_cons, ih, hturn]
    obtain ⟨fd', cloexec⟩ := e
    by_cases hmem : (⟨fd, true⟩ : Σ _ : Int, Bool) ∈ l
    · simp [hmem]
    by_cases hhead : fd = fd' ∧ cloexec = true
    · obtain ⟨rfl, rfl⟩ := hhead
      simp [hmem]
    have hne : ¬ (⟨fd, true⟩ : Σ _ : Int, Bool) = ⟨fd', cloexec⟩ := by
      rintro h
      cases h
      exact hhead ⟨rfl, rfl⟩
    simp [hmem, hhead, hne]

theorem mem_cloexec : (⟨fd, true⟩ : Σ _ : Int, Bool) ∈ s.files.fdCloexec.entries ↔
      s.files.fdCloexec.lookup fd = some true := AList.mem_lookup_iff.symm

theorem closeCloexec_entry (s : KState) (fd : Int) :
    s.closeCloexec.entry fd =
      if s.files.fdCloexec.lookup fd = some true then none else s.entry fd := by
  have h := foldl_cloexec (·.entry fd) fd none (fun s fd' c => closeCloexecAt_entry s fd' fd c)
    s.files.fdCloexec.entries s
  simp only [mem_cloexec] at h
  exact h

theorem closeCloexec_closedFDs (s : KState) (fd : Int) :
    s.closeCloexec.files.closedFDs fd =
      if s.files.fdCloexec.lookup fd = some true then false else s.files.closedFDs fd := by
  have h := foldl_cloexec (·.files.closedFDs fd) fd false
    (fun s fd' c => closeCloexecAt_closedFDs s fd' fd c) s.files.fdCloexec.entries s
  simp only [mem_cloexec] at h
  exact h

theorem closeCloexec_kern (s : KState) : s.closeCloexec.kern = s.kern := by
  rw [closeCloexec]
  generalize s.files.fdCloexec.entries = l
  induction l generalizing s with
  | nil => rfl
  | cons e l ih => rw [foldl_cons, ih, closeCloexecAt_kern]

/-! ## All operations -/

/-- The calls that change a descriptor table.  `pipe` is also `pipe2`; `guest` is what
the program does in between. -/
inductive TableOp where
  | open (pathAddr flags mode : U32)
  | pipe (addr flags : U32)
  | dup2 (oldFD newFD : Int)
  | dup3 (oldFD newFD : Int) (flags : U32)
  | fcntl (fd : Int) (command argument : U32)
  | close (fd : Int)
  | closeCloexec
  | guest (cpu : CPU) (mem : Memory)

def TableOp.run (host : Host) (s : KState) : TableOp → KState
  | .open pathAddr flags mode => s.open host pathAddr flags mode
  | .pipe addr flags => s.pipe addr flags
  | .dup2 oldFD newFD => s.dup2 oldFD newFD
  | .dup3 oldFD newFD flags => s.dup3 oldFD newFD flags
  | .fcntl fd command argument => s.fcntl fd command argument
  | .close fd => s.close fd
  | .closeCloexec => s.closeCloexec
  | .guest cpu mem => { s with cpu := cpu, mem := mem }

end IshGo.Kernel
