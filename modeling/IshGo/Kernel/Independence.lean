/-
# `IshGo.Kernel.Independence` — does closing one descriptor close another?

Two descriptors may share a handle: `cloneHandle` makes a new handle of a pipe, and
returns every other handle as it is.  `Close` on a shared host file closes it for all
who hold it.
-/
import IshGo.Kernel.Table

namespace IshGo.Kernel

open I386 KState Objects

variable {fd : Int} {h₂ : Handle} {s : KState}

/-! ## Open handles -/

/-- `Close` does something. -/
def Handle.closable : Handle → Bool
  | .file _ | .pipe _ => true
  | .virtual _ | .null | .zero | .tty _ => false

namespace Objects

def Allocated (o : Objects) : Handle → Prop
  | .file id => id < o.nextFile
  | .pipe id => id < o.nextEnd
  | .virtual _ | .null | .zero | .tty _ => True

/-- `Close` has been called on the handle. -/
def isClosed (o : Objects) : Handle → Bool
  | .file id => o.fileClosed id
  | .pipe id => (o.ends id).closed
  | .virtual _ | .null | .zero | .tty _ => false

def Open (o : Objects) (h : Handle) : Prop := o.Allocated h ∧ o.isClosed h = false

instance (o : Objects) (h : Handle) : Decidable (o.Allocated h) := by
  cases h <;> simp only [Allocated] <;> infer_instance

instance (o : Objects) (h : Handle) : Decidable (o.Open h) := inferInstanceAs (Decidable (_ ∧ _))

theorem allocated_close (o : Objects) (h h₂ : Handle) : (o.close h).Allocated h₂ ↔ o.Allocated h₂ := by
  cases h with
  | pipe id =>
    simp only [close]
    split
    · exact Iff.rfl
    · cases h₂ <;> exact Iff.rfl
  | file id => cases h₂ <;> exact Iff.rfl
  | _ => exact Iff.rfl

theorem isClosed_close (o : Objects) (h h₂ : Handle) :
    (o.close h).isClosed h₂ = true ↔ o.isClosed h₂ = true ∨ (h = h₂ ∧ h₂.closable = true) := by
  cases h with
  | file id =>
    cases h₂ with
    | file id₂ =>
      by_cases hid : id₂ = id
      · subst hid
        simp [close, isClosed, Handle.closable]
      · simp [close, isClosed, Function.update_of_ne hid, Ne.symm hid]
    | _ => simp [close, isClosed]
  | pipe id =>
    by_cases hc : (o.ends id).closed = true
    · have hsame : o.close (.pipe id) = o := by simp [close, hc]
      rw [hsame]
      refine ⟨.inl, fun hor => hor.elim (fun h => h) ?_⟩
      rintro ⟨rfl, _⟩
      exact hc
    cases h₂ with
    | pipe id₂ =>
      by_cases hid : id₂ = id
      · subst hid
        simp [close, hc, isClosed, Handle.closable]
      · simp [close, hc, isClosed, Function.update_of_ne hid, Ne.symm hid]
    | _ => simp [close, hc, isClosed, addEnd]
  | «virtual» | null | zero | tty => simpa [close] using fun heq => by cases heq; simp [Handle.closable]

theorem open_close (o : Objects) (h h₂ : Handle) :
    (o.close h).Open h₂ ↔ o.Open h₂ ∧ ¬ (h = h₂ ∧ h₂.closable = true) := by
  rw [Open, allocated_close, Open, and_assoc, ← Bool.not_eq_true, ← Bool.not_eq_true, isClosed_close, not_or]

theorem open_cloneHandle {o : Objects} (h : Handle) (ha : o.Allocated h₂) :
    (o.cloneHandle h).2.Open h₂ ↔ o.Open h₂ := by
  cases h with
  | pipe id =>
    cases h₂ with
    | pipe id₂ =>
      have hlt : id₂ < o.nextEnd := ha
      simp [cloneHandle, Open, Allocated, isClosed, Function.update_of_ne (Nat.ne_of_lt hlt), hlt,
        Nat.lt_succ_of_lt hlt]
    | _ => simp [cloneHandle, Open, Allocated, isClosed, addEnd]
  | _ => exact Iff.rfl

end Objects

/-! ## Operations that close -/

inductive ClosingOp where
  | close (fd : Int)
  | dup2 (oldFD fd : Int)
  | dup3 (oldFD fd : Int) (flags : U32)
  | closeCloexec
  | closeOnExit

namespace ClosingOp

def run (s : KState) : ClosingOp → KState
  | close fd => s.close fd
  | dup2 oldFD fd => s.dup2 oldFD fd
  | dup3 oldFD fd flags => s.dup3 oldFD fd flags
  | closeCloexec => s.closeCloexec
  | closeOnExit => s.closeOnExit

/-- The descriptors, of the kernel's own table, that the operation is to close. -/
def Targets (s : KState) (fd : Int) : ClosingOp → Prop
  | close fd₁ | dup2 _ fd₁ | dup3 _ fd₁ _ => fd = fd₁
  | closeCloexec => s.files.fdCloexec.lookup fd = some true
  | closeOnExit => True

/-- The entry on `fd` is replaced by a duplicate of `oldFD`, and is `h`, another handle. -/
def Replaces (s : KState) (oldFD fd : Int) (flags : U32) (h : Handle) : Prop :=
  s.DupAccepts oldFD fd flags ∧ s.entry fd = some h ∧ s.handleForFD oldFD ≠ some h

/-- The operation calls `Close` on `h`. -/
def Closes (s : KState) (h : Handle) : ClosingOp → Prop
  | close fd => s.entry fd = some h
  | dup2 oldFD fd => Replaces s oldFD fd 0 h
  | dup3 oldFD fd flags => Replaces s oldFD fd flags h
  | closeCloexec => ∃ fd, s.files.fdCloexec.lookup fd = some true ∧ s.entry fd = some h
  | closeOnExit => ∃ fd, s.entry fd = some h

end ClosingOp

/-- Where the other descriptor is: in the kernel's table, or in another. -/
inductive Place where
  | own
  | other (files : Files) (tty : Option Nat)

namespace Place

def handle (s : KState) (fd : Int) : Place → Option Handle
  | own => s.handleForFD fd
  | other files tty => files.handle tty fd

def Targeted (s : KState) (op : ClosingOp) (fd : Int) : Place → Prop
  | own => op.Targets s fd
  | other _ _ => False

end Place

/-! ## The handle -/

theorem open_closeReplaced (fd : Int) (h h₂ : Handle) :
    (s.closeReplaced fd h).objs.Open h₂ ↔
      s.objs.Open h₂ ∧ ¬ ((s.entry fd = some h₂ ∧ h ≠ h₂) ∧ h₂.closable = true) := by
  rw [closeReplaced]
  cases he : s.entry fd with
  | none => simp
  | some old =>
    by_cases hold : old = h
    · subst hold
      simp
    simp only [ne_eq, hold, not_false_eq_true, if_true, open_close, Option.some.injEq]
    constructor
    · rintro ⟨ho, hn⟩
      refine ⟨ho, ?_⟩
      rintro ⟨⟨rfl, _⟩, hc⟩
      exact hn ⟨rfl, hc⟩
    rintro ⟨ho, hn⟩
    refine ⟨ho, ?_⟩
    rintro ⟨rfl, hc⟩
    exact hn ⟨⟨rfl, fun hh => hold hh.symm⟩, hc⟩

theorem allocated_closeReplaced (fd : Int) (h h₂ : Handle) :
    (s.closeReplaced fd h).objs.Allocated h₂ ↔ s.objs.Allocated h₂ := by
  rw [closeReplaced]
  split
  · split
    · exact allocated_close _ _ _
    · exact Iff.rfl
  · exact Iff.rfl

theorem open_dupResult (oldFD fd : Int) (flags : U32) (dup3 : Bool) (ho : s.objs.Open h₂) :
    (s.dupResult oldFD fd flags dup3).2.objs.Open h₂ ↔
      ¬ (h₂.closable = true ∧ ClosingOp.Replaces s oldFD fd flags h₂) := by
  by_cases ha : s.DupAccepts oldFD fd flags
  · obtain ⟨h, hh⟩ := Option.ne_none_iff_exists'.mp ha.2.2
    rw [dupResult_accepted dup3 ha hh]
    have halloc := (allocated_closeReplaced (s := s) fd h h₂).mpr ho.1
    rw [show (((s.closeReplaced fd h).installClone fd h _).objs.Open h₂) ↔ _ from
      open_cloneHandle h halloc, open_closeReplaced]
    simp only [ho, true_and, ClosingOp.Replaces, ha, hh, Option.some.injEq, ne_eq]
    exact not_congr and_comm
  · obtain ⟨v, hr, -⟩ := dupResult_refused dup3 ha
    rw [hr]
    exact ⟨fun _ hc => ha hc.2.1, fun _ => ho⟩

theorem open_closeCloexecAt (s : KState) (fd : Int) (cloexec : Bool) (h₂ : Handle) :
    (s.closeCloexecAt fd cloexec).objs.Open h₂ ↔
      s.objs.Open h₂ ∧ ¬ (h₂.closable = true ∧ cloexec = true ∧ s.entry fd = some h₂) := by
  cases cloexec with
  | false => simp [closeCloexecAt]
  | true =>
    simp only [closeCloexecAt, Bool.true_eq_false, if_false, true_and]
    cases s.entry fd with
    | none => simp
    | some h =>
      rw [Option.some.injEq, and_comm (a := h₂.closable = true)]
      exact open_close s.objs h h₂

/-- The turns of `CloseCloexec`, by induction: a turn closes what it removes. -/
theorem open_foldl_cloexec (h₂ : Handle) (l : List (Σ _ : Int, Bool)) :
    ∀ s : KState, (l.foldl (fun s e => s.closeCloexecAt e.1 e.2) s).objs.Open h₂ ↔
      s.objs.Open h₂ ∧ ¬ (h₂.closable = true ∧ ∃ fd, ⟨fd, true⟩ ∈ l ∧ s.entry fd = some h₂) := by
  induction l with
  | nil => simp
  | cons e l ih =>
    intro s
    obtain ⟨fd, cloexec⟩ := e
    rw [List.foldl_cons, ih, open_closeCloexecAt, and_assoc, and_congr_right_iff]
    intro _
    rw [← not_or, ← and_or_left]
    refine not_congr (and_congr_right fun _ => ?_)
    simp only [closeCloexecAt_entry, List.mem_cons, Sigma.mk.injEq, heq_eq_eq]
    constructor
    · rintro (⟨rfl, he⟩ | ⟨fd', hmem, he⟩)
      · exact ⟨fd, .inl ⟨rfl, rfl⟩, he⟩
      · split at he
        · cases he
        · exact ⟨fd', .inr hmem, he⟩
    rintro ⟨fd', ⟨rfl, rfl⟩ | hmem, he⟩
    · exact .inl ⟨rfl, he⟩
    by_cases hhead : fd' = fd ∧ cloexec = true
    · obtain ⟨rfl, rfl⟩ := hhead
      exact .inl ⟨rfl, he⟩
    · exact .inr ⟨fd', hmem, by rw [if_neg hhead]; exact he⟩

theorem open_foldl_exit (h₂ : Handle) (l : List (Σ _ : Int, Handle)) :
    ∀ s : KState, (l.foldl (fun s e => s.closeEntry e.1 e.2) s).objs.Open h₂ ↔
      s.objs.Open h₂ ∧ ¬ (h₂.closable = true ∧ ∃ fd, ⟨fd, h₂⟩ ∈ l) := by
  induction l with
  | nil => simp
  | cons e l ih =>
    intro s
    obtain ⟨fd, h⟩ := e
    rw [List.foldl_cons, ih, closeEntry, open_close, and_assoc, and_congr_right_iff]
    intro _
    rw [and_comm (a := h = h₂), ← not_or, ← and_or_left]
    refine not_congr (and_congr_right fun _ => ?_)
    simp only [List.mem_cons, Sigma.mk.injEq, heq_eq_eq]
    constructor
    · rintro (rfl | ⟨fd', hmem⟩)
      · exact ⟨fd, .inl ⟨rfl, rfl⟩⟩
      · exact ⟨fd', .inr hmem⟩
    · rintro ⟨fd', ⟨_, rfl⟩ | hmem⟩
      · exact .inl rfl
      · exact .inr ⟨fd', hmem⟩

/-- The handle stays open exactly if the operation does not close it. -/
theorem ClosingOp.open_iff (op : ClosingOp) (ho : s.objs.Open h₂) :
    (op.run s).objs.Open h₂ ↔ ¬ (h₂.closable = true ∧ op.Closes s h₂) := by
  cases op with
  | close fd =>
    show (s.closeResult fd).2.objs.Open h₂ ↔ _
    rcases closeResult_cases s fd with ⟨h, he⟩ | ⟨he, hs, hc⟩ | hg
    · rw [closeResult_entry he, ClosingOp.Closes, he, Option.some.injEq, and_comm]
      exact (open_close s.objs h h₂).trans (and_iff_right ho)
    · rw [closeResult_terminal he hs hc, ClosingOp.Closes, he]
      exact ⟨fun _ hc => (nomatch hc.2), fun _ => ho⟩
    · rw [closeResult_gone hg, ClosingOp.Closes, (handleForFD_eq_none.mp hg).1]
      exact ⟨fun _ hc => (nomatch hc.2), fun _ => ho⟩
  | dup2 oldFD fd => exact open_dupResult oldFD fd 0 false ho
  | dup3 oldFD fd flags => exact open_dupResult oldFD fd flags true ho
  | closeCloexec =>
    rw [ClosingOp.run, KState.closeCloexec, open_foldl_cloexec, ClosingOp.Closes]
    simp only [mem_cloexec]
    exact and_iff_right ho
  | closeOnExit =>
    rw [ClosingOp.run, KState.closeOnExit, open_foldl_exit, ClosingOp.Closes]
    simp only [← AList.mem_lookup_iff]
    exact and_iff_right ho

/-! ## The descriptor -/

/-- What `handleForFD` looks at for `fd` is the same. -/
structure SameAt (fd : Int) (s s' : KState) : Prop where
  tty : s'.kern.tty = s.kern.tty
  entry : s'.entry fd = s.entry fd
  closed : s'.files.closedFDs fd = s.files.closedFDs fd

theorem SameAt.handleForFD {s' : KState} (h : SameAt fd s s') : s'.handleForFD fd = s.handleForFD fd :=
  handleForFD_congr h.tty h.entry h.closed

theorem sameAt_dup {newFD : Int} (hfd : fd ≠ newFD) (s : KState) (oldFD : Int) (flags : U32)
    (dup3 : Bool) : SameAt fd s (s.dupResult oldFD newFD flags dup3).2 := by
  rcases dupResult_cases s oldFD newFD flags dup3 with ⟨v, hr⟩ | ⟨h, cloexec, _, _, hr⟩
  · rw [hr]
    exact ⟨rfl, rfl, rfl⟩
  rw [hr]
  have hsame : (s.closeReplaced newFD h).files = s.files ∧
      (s.closeReplaced newFD h).kern = s.kern := closeReplaced_files s newFD h
  refine ⟨by rw [← hsame.2]; rfl, ?_, ?_⟩
  · cases cloexec <;> simp [installClone, entry, hsame.1, hfd]
  · cases cloexec <;> simp [installClone, hsame.1, hfd]

theorem ClosingOp.sameAt (op : ClosingOp) (h : ¬ op.Targets s fd) : SameAt fd s (op.run s) := by
  cases op with
  | close fd₁ =>
    have hfd : fd ≠ fd₁ := h
    have hclose : SameAt fd s (s.closeResult fd₁).2 := by
      rcases closeResult_cases s fd₁ with ⟨f, he⟩ | ⟨he, hs, hc⟩ | hg
      · rw [closeResult_entry he]
        refine ⟨rfl, ?_, ?_⟩
        · simp [entry, hfd]
        · simp [hfd]
      · rw [closeResult_terminal he hs hc]
        refine ⟨rfl, rfl, ?_⟩
        simp [hfd]
      · rw [closeResult_gone hg]
        exact ⟨rfl, rfl, rfl⟩
    exact ⟨hclose.tty, hclose.entry, hclose.closed⟩
  | dup2 oldFD newFD =>
    have hdup := sameAt_dup h s oldFD 0 false
    exact ⟨hdup.tty, hdup.entry, hdup.closed⟩
  | dup3 oldFD newFD flags =>
    have hdup := sameAt_dup h s oldFD flags true
    exact ⟨hdup.tty, hdup.entry, hdup.closed⟩
  | closeCloexec =>
    have hx : ¬ s.files.fdCloexec.lookup fd = some true := h
    refine ⟨?_, ?_, ?_⟩
    · rw [ClosingOp.run, closeCloexec_kern]
    · rw [ClosingOp.run, closeCloexec_entry, if_neg hx]
    · rw [ClosingOp.run, closeCloexec_closedFDs, if_neg hx]
  | closeOnExit => exact absurd trivial h

/-- For every state, every operation and every descriptor with an open handle, in the
same table or another, that the operation is not to close itself: it keeps its handle,
open, exactly if the operation does not call `Close` on this handle. -/
theorem independent_iff (op : ClosingOp) {s : KState} (place : Place) {fd₂ : Int} {h₂ : Handle}
    (hh : place.handle s fd₂ = some h₂) (ho : s.objs.Open h₂)
    (ht : ¬ place.Targeted s op fd₂) :
    (place.handle (op.run s) fd₂ = some h₂ ∧ (op.run s).objs.Open h₂) ↔
      ¬ (h₂.closable = true ∧ op.Closes s h₂) := by
  have hkeeps : place.handle (op.run s) fd₂ = some h₂ := by
    cases place with
    | own => exact (op.sameAt ht).handleForFD.trans hh
    | other files tty => exact hh
  rw [op.open_iff ho]
  exact and_iff_right hkeeps

/-- A pipe on `0` and `1`, and a duplicate of its read end on `5`. -/
def dupedPipe : KState :=
  ((new true none CPU.new (Memory.new 4096) new).pipe 0 0).dup2 0 5

/-- Closing the read end on `0` leaves its duplicate. -/
theorem independent_iff_pipe :
    (dupedPipe.close 0).handleForFD 5 = some (.pipe 2) ∧
      (dupedPipe.close 0).objs.Open (.pipe 2) := by
  refine (@independent_iff (.close 0) dupedPipe .own 5 (.pipe 2) (by decide) (by decide) ?_).mpr ?_
  · show ¬ (5 : Int) = 0
    decide
  · rintro ⟨_, hc⟩
    exact absurd (show dupedPipe.entry 0 = some (.pipe 2) from hc) (by decide)

/-- A host file on `3`. -/
def openedFile : KState :=
  { new true (some 0) CPU.new (Memory.new 4096) new.newFile.2 with
    files := Files.new.install 3 (.file 0) }

def forkedFile : KState :=
  { openedFile with
    files := (openedFile.files.cloneForChild openedFile.objs).1
    objs := (openedFile.files.cloneForChild openedFile.objs).2 }

/-- `dup2(3, 4)` and `close(3)`: the file on `4` is closed.  And when the child exits,
the file on `3` of the parent is closed. -/
theorem shared_file_closed :
    ((openedFile.dup2 3 4).handleForFD 4 = some (.file 0) ∧
        (openedFile.dup2 3 4).objs.Open (.file 0) ∧
        ((openedFile.dup2 3 4).close 3).handleForFD 4 = some (.file 0) ∧
        ¬ ((openedFile.dup2 3 4).close 3).objs.Open (.file 0)) ∧
      (forkedFile.objs.Open (.file 0) ∧ openedFile.handleForFD 3 = some (.file 0) ∧
        ¬ forkedFile.closeOnExit.objs.Open (.file 0)) := by
  decide

end IshGo.Kernel
