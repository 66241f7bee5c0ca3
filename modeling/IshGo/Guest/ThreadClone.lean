/-
# `IshGo.Guest.ThreadClone` — the pipe counts and the creation of a thread

A thread shares the table of its parent, so creating one should leave every count alone.
`CloneForThread` gets its kernel from `CloneForChild`, which clones every handle; the clones
are then dropped, and nobody can close them.

    a count has changed    iff    the table of the parent holds an end of a pipe
-/
import IshGo.Guest.Scheduler

namespace IshGo.Kernel

open I386 Lib List

variable {f : Files} {l : List (Σ _ : Int, Handle)}

/-! ## Cloning a table -/

namespace Objects

theorem count_clonePipe (o : Objects) (id p : Nat) (write : Bool) :
    (o.cloneHandle (.pipe id)).2.count p write =
      o.count p write + if (o.ends id).pipe = p ∧ (o.ends id).write = write then 1 else 0 :=
  count_addEnd o (o.ends id) 1 p write

/-- A clone never lowers a count. -/
theorem count_le_cloneHandle (o : Objects) (h : Handle) (p : Nat) (write : Bool) :
    o.count p write ≤ (o.cloneHandle h).2.count p write := by
  cases h with
  | pipe id =>
    rw [count_clonePipe]
    split <;> omega
  | _ => exact le_refl _

end Objects

theorem count_le_cloneEntries (l : List (Σ _ : Int, Handle)) :
    ∀ (acc : AList (fun _ : Int => Handle) × Objects) (p : Nat) (write : Bool),
      acc.2.count p write ≤ (l.foldl cloneEntry acc).2.count p write := by
  induction l with
  | nil => exact fun acc p write => le_refl _
  | cons e l ih =>
    intro acc p write
    have hhead := acc.2.count_le_cloneHandle e.2 p write
    exact le_trans hhead (ih (cloneEntry acc e) p write)

theorem exists_count_lt_cloneEntries {fd : Int} {id : Nat}
    (hmem : ⟨fd, .pipe id⟩ ∈ l) (acc : AList (fun _ : Int => Handle) × Objects) :
    ∃ p write, acc.2.count p write < (l.foldl cloneEntry acc).2.count p write := by
  obtain ⟨front, back, rfl⟩ := append_of_mem hmem
  have hfront := count_le_cloneEntries front acc
  rw [foldl_append, foldl_cons]
  -- the end is looked up when its turn comes
  generalize front.foldl cloneEntry acc = mid at hfront ⊢
  refine ⟨(mid.2.ends id).pipe, (mid.2.ends id).write, ?_⟩
  have hturn := mid.2.count_clonePipe id (mid.2.ends id).pipe (mid.2.ends id).write
  rw [if_pos ⟨rfl, rfl⟩] at hturn
  calc acc.2.count (mid.2.ends id).pipe (mid.2.ends id).write
      ≤ mid.2.count (mid.2.ends id).pipe (mid.2.ends id).write := hfront _ _
    _ < (cloneEntry mid ⟨fd, .pipe id⟩).2.count (mid.2.ends id).pipe (mid.2.ends id).write :=
        lt_of_lt_of_eq (Int.lt_succ _) hturn.symm
    _ ≤ _ := count_le_cloneEntries back _ _ _

theorem cloneEntries_objs (hl : ∀ e ∈ l, e.2.pipeEnd = []) :
    ∀ acc : AList (fun _ : Int => Handle) × Objects, (l.foldl cloneEntry acc).2 = acc.2 := by
  induction l with
  | nil => exact fun acc => rfl
  | cons e l ih =>
    intro acc
    have hsame : (acc.2.cloneHandle e.2).2 = acc.2 := by
      have he := hl e mem_cons_self
      cases hh : e.2 with
      | pipe id =>
        rw [hh] at he
        cases he
      | _ => rfl
    exact (ih (fun e' he' => hl e' (mem_cons_of_mem _ he')) (cloneEntry acc e)).trans hsame

def Files.NoPipes (f : Files) : Prop := ∀ fd id, f.fds.lookup fd ≠ some (.pipe id)

theorem Files.NoPipes.pipeEnd (h : f.NoPipes) : ∀ e ∈ f.fds.entries, e.2.pipeEnd = [] := by
  intro e he
  obtain ⟨fd, hd⟩ := e
  cases hd with
  | pipe id => exact absurd (AList.mem_lookup_iff.mpr he) (h fd id)
  | _ => rfl

theorem Files.noPipes_of_counts {o : Objects}
    (h : ∀ p write, (f.cloneForChild o).2.count p write = o.count p write) : f.NoPipes := by
  intro fd id hlook
  obtain ⟨p, write, hlt⟩ :=
    exists_count_lt_cloneEntries (AList.mem_lookup_iff.mp hlook) (∅, o)
  exact absurd (h p write) (ne_of_gt hlt)

theorem Files.NoPipes.cloneForChild_objs (h : f.NoPipes) (o : Objects) : (f.cloneForChild o).2 = o :=
  cloneEntries_objs h.pipeEnd (∅, o)

theorem cloneEntries_held (hl : ∀ e ∈ l, e.2.pipeEnd = []) :
    ∀ acc : AList (fun _ : Int => Handle) × Objects, (∀ e ∈ acc.1.entries, e.2.pipeEnd = []) →
      ∀ e ∈ (l.foldl cloneEntry acc).1.entries, e.2.pipeEnd = [] := by
  induction l with
  | nil => exact fun acc hacc => hacc
  | cons e l ih =>
    intro acc hacc
    refine ih (fun e' he' => hl e' (mem_cons_of_mem _ he')) (cloneEntry acc e) ?_
    have hhead : (acc.2.cloneHandle e.2).1.pipeEnd = [] := by
      have he := hl e mem_cons_self
      cases hh : e.2 with
      | pipe id =>
        rw [hh] at he
        cases he
      | _ => rfl
    intro e' he'
    rcases mem_cons.mp he' with rfl | hrest
    · exact hhead
    · exact hacc e' ((kerase_sublist _ _).subset hrest)

theorem Files.NoPipes.cloneForChild_held (h : f.NoPipes) (o : Objects) : (f.cloneForChild o).1.held = [] :=
  flatMap_eq_nil_iff.mpr (cloneEntries_held h.pipeEnd (∅, o) (fun _ he => nomatch he))

end IshGo.Kernel

namespace IshGo.Guest

open I386 Kernel Lib

namespace World

/-! ## Creating a thread -/

theorem storeWord_eq (w : World) (space : Nat) (asked : Bool) (addr value : U32) :
    ∃ mems, (w.storeWord space asked addr value).2 = { w with mems := mems } := by
  rw [storeWord]
  split
  · exact ⟨w.mems, rfl⟩
  · split
    · exact ⟨w.mems, rfl⟩
    · exact ⟨_, rfl⟩

theorem storeWord_objs (w : World) (space : Nat) (asked : Bool) (addr value : U32) :
    (w.storeWord space asked addr value).2.objs = w.objs := by
  obtain ⟨mems, h⟩ := w.storeWord_eq space asked addr value
  rw [h]

theorem clone_objs {w : World} {parentPID : U32} {i : Nat} (h : w.runnable parentPID = some i)
    (caller : Nat) (flags childStack parentTID childTID tls : U32) :
    (w.clone parentPID caller flags childStack parentTID childTID tls).2.objs =
      ((w.files i).cloneForChild w.objs).2 := by
  simp only [clone, h]
  split
  · exact storeWord_objs ..
  split
  · rw [storeWord_objs, storeWord_objs]
    rfl
  · exact (storeWord_objs ..).trans (storeWord_objs ..)

theorem clone_refused {w : World} {parentPID : U32} (h : w.runnable parentPID = none)
    (caller : Nat) (flags childStack parentTID childTID tls : U32) :
    w.clone parentPID caller flags childStack parentTID childTID tls = (none, w) := by
  simp only [clone, h]

/-- Creating a thread of the process `parentPID` has not changed a count.  So an end with
one descriptor in the shared table is gone when that descriptor is closed. -/
structure CountsKept (w w' : World) (parentPID : U32) : Prop where
  count : ∀ p write, w'.objs.count p write = w.objs.count p write
  last : ∀ i, w.runnable parentPID = some i → ∀ j, (w'.proc j).table = (w.proc i).table →
    ∀ fd id, (w.files i).fds.lookup fd = some (.pipe id) →
      w.objs.count (w.objs.ends id).pipe (w.objs.ends id).write = 1 →
      ((w'.enter j).close fd).objs.count (w.objs.ends id).pipe (w.objs.ends id).write = 0

theorem clone_keeps_counts_iff (w : World) (parentPID : U32) (caller : Nat)
    (flags childStack parentTID childTID tls : U32) :
    w.CountsKept (w.clone parentPID caller flags childStack parentTID childTID tls).2 parentPID ↔
      ∀ i, w.runnable parentPID = some i → (w.files i).NoPipes := by
  constructor
  · intro h i hi
    refine Files.noPipes_of_counts (o := w.objs) fun p write => ?_
    rw [← clone_objs hi caller flags childStack parentTID childTID tls]
    exact h.count p write
  intro h
  refine ⟨fun p write => ?_, fun i hi j _ fd id hlook => absurd hlook (h i hi fd id)⟩
  cases hi : w.runnable parentPID with
  | none => rw [clone_refused hi]
  | some i => rw [clone_objs hi, (h i hi).cloneForChild_objs]

def withPipe : World :=
  let w := start ⟨CPU.new, Memory.new 16, 0⟩ none Objects.new
  w.leave 0 ((w.enter 0).pipe 0 0)

/-- One thread is created, and the only write end of the pipe counts twice. -/
theorem thread_doubles_writers :
    withPipe.objs.count 0 true = 1 ∧
      (withPipe.clone 1 0 (cloneVM ||| cloneThread) 0 0 0 0).1 = some 2 ∧
      (withPipe.clone 1 0 (cloneVM ||| cloneThread) 0 0 0 0).2.objs.count 0 true = 2 ∧
      ¬ withPipe.CountsKept (withPipe.clone 1 0 (cloneVM ||| cloneThread) 0 0 0 0).2 1 := by
  have hbefore : withPipe.objs.count 0 true = 1 := by decide
  have hafter : (withPipe.clone 1 0 (cloneVM ||| cloneThread) 0 0 0 0).2.objs.count 0 true = 2 := by
    decide
  refine ⟨hbefore, by decide, hafter, fun h => ?_⟩
  have hsame := h.count 0 true
  rw [hbefore, hafter] at hsame
  exact absurd hsame (by decide)

end World

end IshGo.Guest
