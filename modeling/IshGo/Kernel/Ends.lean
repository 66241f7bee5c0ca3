/-
# `IshGo.Kernel.Ends` — the ends of pipes, and who holds them

A pipe counts its readers and writers; the counts are kept by `CloneHandle` and
`Close`, one handle at a time.  `Counted o held` says that they are right: `held` lists,
without repetition, the pipe handles that somebody holds, none of them is closed, and
each count is the number of handles in the list.
-/
import IshGo.Kernel.Table

namespace IshGo.Kernel

open I386 Function List

variable {f : Files} {h : Handle} {s : KState} {l : List Nat} {o : Objects}
variable {id : Nat} {o' : Objects} {oldFD readFD writeFD : Int} {s' : KState}
variable {fd : Int}

/-! ## Counts -/

namespace Objects

/-- `writers` or `readers` of a pipe. -/
def count (o : Objects) (p : Nat) (write : Bool) : Int :=
  if write then (o.pipes p).writers else (o.pipes p).readers

def isEnd (o : Objects) (p : Nat) (write : Bool) (id : Nat) : Bool :=
  (o.ends id).pipe = p ∧ (o.ends id).write = write

/-- `held` are the pipe handles that somebody holds, and the counts are right. -/
structure Counted (o : Objects) (held : List Nat) : Prop where
  nodup : held.Nodup
  live : ∀ id ∈ held, id < o.nextEnd ∧ (o.ends id).closed = false ∧ (o.ends id).pipe < o.nextPipe
  count : ∀ p < o.nextPipe, ∀ write, o.count p write = held.countP (o.isEnd p write)

theorem Counted.perm {l' : List Nat} (h : o.Counted l) (hp : l.Perm l') : o.Counted l' where
  nodup := hp.nodup_iff.mp h.nodup
  live := fun id hid => h.live id (hp.mem_iff.mpr hid)
  count := fun p hlt write => by rw [h.count p hlt write, hp.countP_eq]

structure SameCounts (o o' : Objects) : Prop where
  count : ∀ p write, o'.count p write = o.count p write
  ends : o'.ends = o.ends
  nextPipe : o'.nextPipe = o.nextPipe
  nextEnd : o'.nextEnd = o.nextEnd

theorem SamePipes.sameCounts (h : o.SamePipes o') : o.SameCounts o' :=
  ⟨fun p write => by rw [Objects.count, Objects.count, h.pipes], h.ends, h.nextPipe, h.nextEnd⟩

theorem Counted.same (h : o.Counted l) (hs : o.SameCounts o') : o'.Counted l where
  nodup := h.nodup
  live := by
    rw [hs.ends, hs.nextEnd, hs.nextPipe]
    exact h.live
  count := fun p hlt write => by
    have hend : o'.isEnd p write = o.isEnd p write := by
      funext id
      rw [isEnd, isEnd, hs.ends]
    rw [hs.count, hend]
    exact h.count p (hs.nextPipe ▸ hlt) write

theorem count_addEnd (o : Objects) (e : PipeEnd) (d : Int) (p : Nat) (write : Bool) :
    (o.addEnd e d).count p write =
      o.count p write + if e.pipe = p ∧ e.write = write then d else 0 := by
  by_cases hp : p = e.pipe
  · subst hp
    cases hw : e.write <;> cases write <;> simp [addEnd, count, hw]
  · cases hw : e.write <;> simp [addEnd, count, hw, update_of_ne hp, Ne.symm hp]

theorem Counted.closePipe (h : o.Counted (id :: l)) : (o.close (.pipe id)).Counted l := by
  obtain ⟨hlt, hopen, hpipe⟩ := h.live id mem_cons_self
  have hclose : o.close (.pipe id) =
      { o.addEnd (o.ends id) (-1) with
        ends := update o.ends id { o.ends id with closed := true } } := by
    simp [close, hopen]
  have hend : ∀ p write, (o.close (.pipe id)).isEnd p write = o.isEnd p write := by
    intro p write
    funext x
    by_cases hx : x = id
    · subst hx
      simp [hclose, isEnd]
    · simp [hclose, isEnd, update_of_ne hx]
  refine ⟨(nodup_cons.mp h.nodup).2, fun x hx => ?_, fun p hp write => ?_⟩
  · have hne : x ≠ id := fun heq => (nodup_cons.mp h.nodup).1 (heq ▸ hx)
    obtain ⟨h1, h2, h3⟩ := h.live x (mem_cons_of_mem _ hx)
    rw [hclose]
    simp only [update_of_ne hne]
    exact ⟨h1, h2, h3⟩
  rw [hend]
  have hbefore := h.count p (by rw [hclose] at hp; exact hp) write
  have hcount : (o.close (.pipe id)).count p write = (o.addEnd (o.ends id) (-1)).count p write := by
    rw [hclose]
    rfl
  rw [hcount, count_addEnd, hbefore, countP_cons]
  by_cases he : (o.ends id).pipe = p ∧ (o.ends id).write = write
  · simp only [isEnd, he, and_self, decide_true, if_true]
    push_cast
    omega
  · simp [isEnd, he]

/-- `CloneHandle` of a handle that is held. -/
theorem Counted.clonePipe (h : o.Counted l) (hid : id ∈ l) :
    (o.cloneHandle (.pipe id)).2.Counted (o.nextEnd :: l) := by
  obtain ⟨hlt, hopen, hpipe⟩ := h.live id hid
  have hne : ∀ x ∈ l, x ≠ o.nextEnd := fun x hx => Nat.ne_of_lt (h.live x hx).1
  have hends : ∀ x ∈ l, (o.cloneHandle (.pipe id)).2.ends x = o.ends x :=
    fun x hx => update_of_ne (hne x hx) _ _
  refine ⟨nodup_cons.mpr ⟨fun hmem => hne _ hmem rfl, h.nodup⟩, fun x hx => ?_, fun p hp write => ?_⟩
  · rcases mem_cons.mp hx with rfl | hx
    · simp only [cloneHandle, update_self]
      exact ⟨Nat.lt_succ_self _, trivial, hpipe⟩
    · obtain ⟨h1, h2, h3⟩ := h.live x hx
      rw [hends x hx]
      exact ⟨Nat.lt_succ_of_lt h1, h2, h3⟩
  have hcount : (o.cloneHandle (.pipe id)).2.count p write = (o.addEnd (o.ends id) 1).count p write :=
    rfl
  have hold : l.countP ((o.cloneHandle (.pipe id)).2.isEnd p write) = l.countP (o.isEnd p write) :=
    countP_congr fun x hx => by simp only [isEnd, hends x hx]
  rw [hcount, count_addEnd, h.count p hp write, countP_cons, hold]
  by_cases he : (o.ends id).pipe = p ∧ (o.ends id).write = write
  · simp [isEnd, cloneHandle, he]
  · simp [isEnd, cloneHandle, he]

theorem Counted.newPipePair (h : o.Counted l) (nonblock : Bool) :
    (o.newPipePair nonblock).2.2.Counted (o.nextEnd :: (o.nextEnd + 1) :: l) := by
  have hlt : ∀ x ∈ l, x < o.nextEnd := fun x hx => (h.live x hx).1
  have hends : ∀ x ∈ l, (o.newPipePair nonblock).2.2.ends x = o.ends x := by
    intro x hx
    have hx := hlt x hx
    simp only [Objects.newPipePair]
    rw [update_of_ne (by omega), update_of_ne (by omega)]
  have hfirst : (o.newPipePair nonblock).2.2.ends o.nextEnd = ⟨o.nextPipe, false, nonblock, false⟩ := by
    simp only [Objects.newPipePair]
    rw [update_of_ne (by omega), update_self]
  have hsecond : (o.newPipePair nonblock).2.2.ends (o.nextEnd + 1) =
      ⟨o.nextPipe, true, nonblock, false⟩ := update_self _ _ _
  refine ⟨?_, fun x hx => ?_, fun p hp write => ?_⟩
  · refine nodup_cons.mpr ⟨fun hmem => ?_, nodup_cons.mpr ⟨fun hmem => ?_, h.nodup⟩⟩
    · rcases mem_cons.mp hmem with heq | hmem
      · omega
      · exact absurd (hlt _ hmem) (by omega)
    · exact absurd (hlt _ hmem) (by omega)
  · rcases mem_cons.mp hx with rfl | hx
    · rw [hfirst]
      exact ⟨Nat.lt_add_of_pos_right (by omega), rfl, Nat.lt_succ_self _⟩
    rcases mem_cons.mp hx with rfl | hx
    · rw [hsecond]
      exact ⟨Nat.lt_succ_self _, rfl, Nat.lt_succ_self _⟩
    · obtain ⟨h1, h2, h3⟩ := h.live x hx
      rw [hends x hx]
      exact ⟨Nat.lt_add_right 2 h1, h2, Nat.lt_succ_of_lt h3⟩
  have hold : l.countP ((o.newPipePair nonblock).2.2.isEnd p write) = l.countP (o.isEnd p write) :=
    countP_congr fun x hx => by simp only [isEnd, hends x hx]
  rw [countP_cons, countP_cons, hold]
  by_cases hpipe : p = o.nextPipe
  · -- nobody held an end of the new pipe
    have hnone : l.countP (o.isEnd p write) = 0 :=
      countP_eq_zero.mpr fun x hx => by
        have := (h.live x hx).2.2
        simp only [isEnd, decide_eq_true_eq]
        omega
    rw [hnone]
    subst hpipe
    simp only [isEnd, hfirst, hsecond]
    cases write with
    | false | true => simp [Objects.count, Objects.newPipePair, Pipe.new]
  · have hpold : p < o.nextPipe := by
      have : p < o.nextPipe + 1 := hp
      omega
    have hcount : (o.newPipePair nonblock).2.2.count p write = o.count p write := by
      simp only [Objects.count, Objects.newPipePair, update_of_ne hpipe]
    rw [hcount, h.count p hpold write]
    simp [isEnd, hfirst, hsecond, Ne.symm hpipe]

end Objects

/-! ## Tables -/

def Handle.pipeEnd : Handle → List Nat
  | .pipe id => [id]
  | .file _ | .virtual _ | .null | .zero | .tty _ => []

def Files.held (f : Files) : List Nat := f.fds.entries.flatMap fun e => e.2.pipeEnd

open Files

theorem Objects.Counted.close (hc : o.Counted (h.pipeEnd ++ l)) : (o.close h).Counted l := by
  cases h with
  | pipe id => exact hc.closePipe
  | file id => exact hc.same ⟨fun _ _ => rfl, rfl, rfl, rfl⟩
  | _ => exact hc

theorem Objects.Counted.clone (hc : o.Counted l)
    (hsub : h.pipeEnd ⊆ l) : (o.cloneHandle h).2.Counted ((o.cloneHandle h).1.pipeEnd ++ l) := by
  cases h with
  | pipe id => exact hc.clonePipe (hsub mem_cons_self)
  | _ => exact hc

namespace Files

theorem held_install (f : Files) (fd : Int) (h : Handle) :
    (f.install fd h).held = h.pipeEnd ++ (f.remove fd).held := rfl

theorem remove_of_none (hn : f.fds.lookup fd = none) : f.remove fd = f := by
  have hk : fd ∉ f.fds.entries.keys := AList.lookup_eq_none.mp hn
  rw [remove]
  congr 1
  exact AList.ext (kerase_of_notMem_keys hk)

theorem held_install_of_none (h : Handle) (hn : f.fds.lookup fd = none) :
    (f.install fd h).held = h.pipeEnd ++ f.held := by
  rw [held_install, remove_of_none hn]

theorem held_perm (he : f.fds.lookup fd = some h) : f.held.Perm (h.pipeEnd ++ (f.remove fd).held) := by
  have hmem : (⟨fd, h⟩ : Σ _ : Int, Handle) ∈ f.fds.entries := AList.mem_lookup_iff.mp he
  obtain ⟨h', l₁, l₂, hnot, hl, hk⟩ := exists_of_kerase (mem_keys_of_mem hmem)
  have hh : h' = h := by
    have hmem' : (⟨fd, h'⟩ : Σ _ : Int, Handle) ∈ f.fds.entries := by
      rw [hl]
      exact mem_append_right _ mem_cons_self
    have := AList.mem_lookup_iff.mpr hmem'
    rw [he] at this
    exact (Option.some.inj this).symm
  subst hh
  have hremoved : (f.remove fd).held = (l₁ ++ l₂).flatMap fun e => e.2.pipeEnd := by
    rw [← hk]
    rfl
  rw [held, hl, hremoved]
  exact (perm_middle.flatMap_right _)

theorem pipeEnd_subset_held (he : f.fds.lookup fd = some h) : h.pipeEnd ⊆ f.held := by
  intro id hid
  exact mem_flatMap.mpr ⟨⟨fd, h⟩, AList.mem_lookup_iff.mp he, hid⟩

end Files

/-! ## Operations on a table -/

def Accounts (s s' : KState) : Prop :=
  ∀ rest, s.objs.Counted (s.files.held ++ rest) → s'.objs.Counted (s'.files.held ++ rest)

theorem Accounts.refl (s : KState) : Accounts s s := fun _ h => h

theorem Accounts.trans {t u : KState} (h : Accounts s t) (h' : Accounts t u) : Accounts s u :=
  fun rest hc => h' rest (h rest hc)

theorem Accounts.of_same (hf : s'.files.held = s.files.held)
    (ho : s.objs.SameCounts s'.objs) : Accounts s s' := fun rest hc => by
  rw [hf]
  exact hc.same ho

theorem Accounts.close_remove (he : s.entry fd = some h)
    (ho : s'.objs = s.objs.close h) (hf : s'.files.held = (s.files.remove fd).held) :
    Accounts s s' := fun rest hc => by
  have hperm := (held_perm he).append_right rest
  rw [append_assoc] at hperm
  rw [ho, hf]
  exact (hc.perm hperm).close

theorem accounts_close (s : KState) (fd : Int) : Accounts s (s.close fd) := by
  rw [KState.close]
  rcases closeResult_cases s fd with ⟨h, he⟩ | ⟨he, hs, hc⟩ | hg
  · rw [closeResult_entry he]
    exact .close_remove he rfl rfl
  · rw [closeResult_terminal he hs hc]
    exact .refl s
  · rw [closeResult_gone hg]
    exact .refl s

theorem held_installClone (s : KState) (fd : Int) (h : Handle) (cloexec : Bool) :
    (s.installClone fd h cloexec).files.held =
      (s.objs.cloneHandle h).1.pipeEnd ++ (s.files.remove fd).held := by
  cases cloexec <;> rfl

theorem accounts_installClone (cloexec : Bool) (v : U32)
    (hh : s.handleForFD oldFD = some h) (hfree : s.entry fd = none) :
    Accounts s ((s.installClone fd h cloexec).ret v) := by
  intro rest hc
  show (s.objs.cloneHandle h).2.Counted ((s.installClone fd h cloexec).files.held ++ rest)
  rw [held_installClone, remove_of_none hfree, append_assoc]
  refine hc.clone ?_
  rcases handleForFD_some hh with he | ⟨t, rfl⟩
  · exact List.Subset.trans (pipeEnd_subset_held he) (subset_append_left _ _)
  · exact nil_subset _

theorem accounts_dup {newFD : Int} (cloexec : Bool) (v : U32)
    (hh : s.handleForFD oldFD = some h) (hne : oldFD ≠ newFD) :
    Accounts s (((s.closeReplaced newFD h).installClone newFD h cloexec).ret v) := by
  rw [KState.closeReplaced]
  cases he : s.entry newFD with
  | none => exact accounts_installClone cloexec v hh he
  | some old =>
    -- what the clone is made of is still held when the other entry is gone
    have hsub : h.pipeEnd ⊆ (s.files.remove newFD).held := by
      rcases handleForFD_some hh with ho | ⟨t, rfl⟩
      · refine @pipeEnd_subset_held _ _ oldFD ?_
        rw [lookup_remove, if_neg hne]
        exact ho
      · exact nil_subset _
    intro rest hc
    have hperm := (held_perm he).append_right rest
    rw [append_assoc] at hperm
    have hc := hc.perm hperm
    by_cases hold : old = h
    · -- one pipe handle on two numbers: not possible
      subst hold
      have hnil : old.pipeEnd = [] := by
        cases old with
        | pipe id =>
          have hnot := (nodup_cons.mp hc.nodup).1
          exact absurd (mem_append_left rest (hsub mem_cons_self)) hnot
        | _ => rfl
      rw [hnil, nil_append] at hc
      simp only [ne_eq, not_true_eq_false, if_false]
      show (s.objs.cloneHandle old).2.Counted ((s.installClone newFD old cloexec).files.held ++ rest)
      rw [held_installClone, append_assoc]
      exact hc.clone (List.Subset.trans hsub (subset_append_left _ _))
    · simp only [ne_eq, hold, not_false_eq_true, if_true]
      show ((s.objs.close old).cloneHandle h).2.Counted
        (({ s with objs := s.objs.close old }.installClone newFD h cloexec).files.held ++ rest)
      rw [held_installClone, append_assoc]
      exact hc.close.clone (List.Subset.trans hsub (subset_append_left _ _))

theorem accounts_fcntl (s : KState) (fd : Int) (command argument : U32) :
    Accounts s (s.fcntl fd command argument) := by
  rcases fcntl_cases s fd command argument with ⟨_, v, -, hrun⟩ | ⟨h, cloexec, start, v, hh, -, hrun⟩
  · rw [hrun]
    exact .refl s
  · rw [hrun]
    exact accounts_installClone cloexec v hh (s.files.allocateFD_lookup s.kern.tty start)

theorem accounts_dupResult (s : KState) (oldFD newFD : Int) (flags : U32) (dup3 : Bool) :
    Accounts s ((s.dupResult oldFD newFD flags dup3).2.ret (s.dupResult oldFD newFD flags dup3).1) := by
  rcases dupResult_cases s oldFD newFD flags dup3 with ⟨v, hr⟩ | ⟨h, cloexec, hh, hne, hr⟩
  · rw [hr]
    exact .refl s
  · rw [hr]
    exact accounts_dup cloexec _ hh hne

theorem accounts_open (host : Host) (s : KState) (pathAddr flags mode : U32) :
    Accounts s (s.open host pathAddr flags mode) := by
  obtain ⟨objs, hsame, ⟨v, hrun, -⟩ | ⟨h, hpipe, hrun⟩⟩ := open_cases host s pathAddr flags mode
  · rw [hrun]
    exact .of_same rfl hsame.sameCounts
  rw [hrun]
  refine .of_same ?_ hsame.sameCounts
  have hnil : h.pipeEnd = [] := by
    cases h with
    | pipe id => exact absurd rfl (hpipe id)
    | _ => rfl
  show (s.files.install _ h).held = s.files.held
  rw [held_install_of_none h (s.files.allocateFD_lookup s.kern.tty 0), hnil]
  rfl

theorem held_pipeInstall (nonblock cloexec : Bool)
    (hr : s.entry readFD = none) (hw : s.entry writeFD = none) (hne : readFD ≠ writeFD) :
    (s.pipeInstall readFD writeFD nonblock cloexec).files.held =
      (s.objs.nextEnd + 1) :: s.objs.nextEnd :: s.files.held := by
  have hw' : (s.files.install readFD (s.objs.newPipePair nonblock).1).fds.lookup writeFD = none := by
    rw [lookup_install, if_neg (Ne.symm hne)]
    exact hw
  have hheld : ((s.files.install readFD (s.objs.newPipePair nonblock).1).install writeFD
      (s.objs.newPipePair nonblock).2.1).held =
        (s.objs.nextEnd + 1) :: s.objs.nextEnd :: s.files.held := by
    rw [held_install_of_none _ hw', held_install_of_none _ hr]
    rfl
  cases cloexec <;> exact hheld

theorem held_pipeRollback {re we : Handle} (hr : f.fds.lookup readFD = none)
    (hw : f.fds.lookup writeFD = none) (hne : readFD ≠ writeFD) :
    ((((f.install readFD re).install writeFD we).remove readFD).remove writeFD).held = f.held := by
  have hremove : ∀ {g : Files} {fd : Int} {h : Handle}, g.fds.lookup fd = none →
      ((g.install fd h).remove fd).fds.entries = g.fds.entries := by
    intro g fd h hn
    have hcons : kerase fd (⟨fd, h⟩ :: kerase fd g.fds.entries) =
        kerase fd g.fds.entries := kerase_cons_eq rfl
    exact hcons.trans (kerase_of_notMem_keys (AList.lookup_eq_none.mp hn))
  have hcomm : (((f.install readFD re).install writeFD we).remove readFD).remove writeFD =
      (((f.install readFD re).install writeFD we).remove writeFD).remove readFD := by
    simp only [remove, AList.erase_erase]
  have hw' : (f.install readFD re).fds.lookup writeFD = none := by
    rw [lookup_install, if_neg (Ne.symm hne)]
    exact hw
  have hfirst : (((f.install readFD re).install writeFD we).remove writeFD).fds =
      (f.install readFD re).fds := AList.ext (hremove hw')
  rw [hcomm]
  show (kerase readFD (((f.install readFD re).install writeFD we).remove writeFD).fds.entries).flatMap
    _ = _
  rw [hfirst]
  exact congrArg (flatMap _) (hremove hr)

theorem accounts_pipe (s : KState) (addr flags : U32) : Accounts s (s.pipe addr flags) := by
  rcases pipe_cases s addr flags with
    hrun | ⟨r, w, nonblock, cloexec, mem, v, hread, hwrite, hne, -, hrun⟩
  · rw [hrun]
    exact .refl s
  have hr := (handleForFD_eq_none.mp hread).1
  have hw := (handleForFD_eq_none.mp hwrite).1
  rcases hrun with hrun | hrun
  · rw [hrun]
    intro rest hc
    show (s.objs.newPipePair nonblock).2.2.Counted
      ((s.pipeInstall r w nonblock cloexec).files.held ++ rest)
    rw [held_pipeInstall nonblock cloexec hr hw hne]
    exact (hc.newPipePair nonblock).perm (List.Perm.swap _ _ _)
  rw [hrun]
  intro rest hc
  show (((s.objs.newPipePair nonblock).2.2.close (s.objs.newPipePair nonblock).1).close
    (s.objs.newPipePair nonblock).2.1).Counted _
  have hheld : (({ s.pipeInstall r w nonblock cloexec with mem := mem }.pipeRollback r w
      (s.objs.newPipePair nonblock).1 (s.objs.newPipePair nonblock).2.1).ret v).files.held =
        s.files.held := by
    cases cloexec <;> exact held_pipeRollback hr hw hne
  rw [hheld]
  have hc := hc.newPipePair nonblock
  exact hc.closePipe.closePipe

/-! ## Exec, exit and fork -/

theorem accounts_closeCloexecAt (s : KState) (fd : Int) (cloexec : Bool) :
    Accounts s (s.closeCloexecAt fd cloexec) := by
  rw [KState.closeCloexecAt]
  split
  · exact .refl s
  · cases he : s.entry fd with
    | none => exact .refl s
    | some h => exact .close_remove he rfl rfl

theorem accounts_closeCloexec (s : KState) : Accounts s s.closeCloexec := by
  rw [KState.closeCloexec]
  generalize s.files.fdCloexec.entries = l
  induction l generalizing s with
  | nil => exact .refl s
  | cons e l ih => exact (accounts_closeCloexecAt s e.1 e.2).trans (ih _)

/-- The turns of `CloseOnExit`: each removes the first of the entries that are left. -/
theorem closeOnExit_turns (l : List (Σ _ : Int, Handle)) :
    ∀ s : KState, s.files.fds.entries = l →
      Accounts s (l.foldl (fun s e => s.closeEntry e.1 e.2) s) ∧
        (l.foldl (fun s e => s.closeEntry e.1 e.2) s).files.fds.entries = [] := by
  induction l with
  | nil => exact fun s hs => ⟨.refl s, hs⟩
  | cons e l ih =>
    intro s hs
    have he : s.entry e.1 = some e.2 := by
      refine AList.mem_lookup_iff.mpr ?_
      rw [hs]
      exact mem_cons_self
    have hrest : (s.closeEntry e.1 e.2).files.fds.entries = l := by
      show kerase e.1 s.files.fds.entries = l
      rw [hs, kerase_cons_eq rfl]
    obtain ⟨haccounts, hempty⟩ := ih _ hrest
    exact ⟨(Accounts.close_remove he rfl rfl).trans haccounts, hempty⟩

theorem accounts_closeOnExit (s : KState) : Accounts s s.closeOnExit :=
  (closeOnExit_turns s.files.fds.entries s rfl).1

theorem closeOnExit_fds (s : KState) : s.closeOnExit.files.fds = ∅ :=
  AList.ext (closeOnExit_turns s.files.fds.entries s rfl).2

/-- The turns of `CloneForChild`: for the entries that are left, clones of handles that
are held. -/
theorem cloneEntries_turns (l : List (Σ _ : Int, Handle)) :
    ∀ (acc : AList (fun _ : Int => Handle) × Objects) (held : List Nat),
      (∀ e ∈ l, e.2.pipeEnd ⊆ held) → l.NodupKeys → (∀ e ∈ l, e.1 ∉ acc.1) →
      acc.2.Counted (acc.1.entries.flatMap (fun e => e.2.pipeEnd) ++ held) →
      (l.foldl cloneEntry acc).2.Counted
        ((l.foldl cloneEntry acc).1.entries.flatMap (fun e => e.2.pipeEnd) ++ held) := by
  induction l with
  | nil => exact fun acc held _ _ _ hc => hc
  | cons e l ih =>
    intro acc held hsub hnodup hfresh hc
    have hnot : e.1 ∉ acc.1 := hfresh e mem_cons_self
    rw [nodupKeys_cons] at hnodup
    refine ih _ held (fun e' he' => hsub e' (mem_cons_of_mem _ he')) hnodup.2 ?_ ?_
    · intro e' he' hmem
      rcases (AList.mem_insert _).mp hmem with heq | hmem
      · exact hnodup.1 (heq ▸ mem_keys_of_mem he')
      · exact hfresh e' (mem_cons_of_mem _ he') hmem
    show (acc.2.cloneHandle e.2).2.Counted
      ((acc.1.insert e.1 (acc.2.cloneHandle e.2).1).entries.flatMap _ ++ held)
    rw [AList.entries_insert_of_notMem hnot, flatMap_cons, append_assoc]
    exact hc.clone (List.Subset.trans (hsub e mem_cons_self) (subset_append_right _ _))

/-- `CloneForChild`: the child holds clones of what its parent holds. -/
theorem counted_cloneForChild {rest : List Nat} (hc : o.Counted (f.held ++ rest)) :
    (f.cloneForChild o).2.Counted ((f.cloneForChild o).1.held ++ (f.held ++ rest)) :=
  cloneEntries_turns f.fds.entries (∅, o) (f.held ++ rest)
    (fun e he => List.Subset.trans (fun _ hid => mem_flatMap.mpr ⟨e, he, hid⟩) (subset_append_left _ _))
    f.fds.nodupKeys (fun e _ => AList.notMem_empty e.1) hc

end IshGo.Kernel
