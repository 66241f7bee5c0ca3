/-
# `IshGo.Lib.FileMove` — one entry taken out, one entry moved

`rename` of a file tree, and `remove` and `rename` seen from the entries of the directories.

    unlinkAt d n       the entry `n` of `d` is gone
    linkAt d n i       the entry `n` of `d` is `i`
    moveAt d n d' n'   both, one after the other; what was at `n'` is replaced
-/
import IshGo.Lib.FileChange

namespace IshGo.Lib

open Lib.Path Node

variable {d e : Nat} {m n p : Path}
variable {d' : Nat} {n' : Path} {x : Node}

/-! ## One directory -/

theorem Node.entry_drop_self (x : Node) (n : Path) : (x.drop n).entry n = none := by
  cases x with
  | dir entries => exact lookup_filter_self entries n
  | file content => rfl
  | link target => rfl

theorem Node.entry_drop_of_ne (x : Node) (h : m ≠ n) : (x.drop n).entry m = x.entry m := by
  cases x with
  | dir entries => exact lookup_filter_of_ne entries h
  | file content => rfl
  | link target => rfl

theorem Node.entry_put_self (hx : x.isDir = true) (n : Path) (i : Nat) : (x.put n i).entry n = some i := by
  cases x with
  | dir entries => exact List.lookup_cons_self
  | file | link => cases hx

theorem Node.entry_put_of_ne (x : Node) (h : m ≠ n) (i : Nat) : (x.put n i).entry m = x.entry m := by
  cases x with
  | dir entries =>
    simp only [put, entry, List.lookup_cons, beq_eq_false_iff_ne.mpr h]
  | file content => rfl
  | link target => rfl

namespace Tree

/-! ## The call -/

/-- Whether the object `d` is found at `i` or under it, down to a depth. -/
def below (t : Tree) : (depth : Nat) → Nat → Nat → Bool
  | 0, i, d => i = d
  | depth + 1, i, d =>
    i = d ||
      match t.node i with
      | .dir entries => entries.any fun e => t.below depth e.2 d
      | _ => false

def vacate (t : Tree) (d : Nat) (n : Path) : Tree :=
  match t.entry d n with
  | none => t
  | some i => t.unlinkAt d n i

/-- The object `i` from one name to another. -/
def moveAt (t : Tree) (d : Nat) (n : Path) (d' : Nat) (n' : Path) (i : Nat) : Tree :=
  ((t.vacate d' n').unlinkAt d n i).linkAt d' n' i

/-- Whether an object may take the place of another: directories only that of an empty directory,
and nothing else that of a directory. -/
def replaceable (t : Tree) (i : Nat) : Option Nat → Except Errno Unit
  | none => .ok ()
  | some j =>
    match t.isDir i, t.node j with
    | true, .dir [] => .ok ()
    | true, .dir (_ :: _) => .error .notempty
    | true, _ => .error .notdir
    | false, .dir _ => .error .isdir
    | false, _ => .ok ()

/-- Two names of one object are both kept; a directory is not moved under itself. -/
def rename (t : Tree) (old new : Path) : Except Errno Unit × Tree :=
  match lastName old, lastName new with
  | some n, some n' =>
    match t.parent old, t.parent new with
    | .ok d, .ok d' =>
      match t.entry d n with
      | none => (.error .noent, t)
      | some i =>
        if t.entry d' n' = some i then (.ok (), t)
        else if t.below t.nodes.next i d' then (.error .inval, t)
        else
          match t.replaceable i (t.entry d' n') with
          | .error e => (.error e, t)
          | .ok () => (.ok (), t.moveAt d n d' n' i)
    | .error e, _ => (.error e, t)
    | _, .error e => (.error e, t)
  | _, _ => (.error .inval, t)

/-! ## Entries -/

variable {t t' t'' : Tree}

structure SameObjects (t t' : Tree) : Prop where
  dirs : ∀ e, t'.isDir e = t.isDir e
  others : ∀ e, t.isDir e = false → t'.node e = t.node e

theorem SameObjects.refl (t : Tree) : SameObjects t t := ⟨fun _ => rfl, fun _ _ => rfl⟩

theorem SameObjects.trans (h : SameObjects t t') (h' : SameObjects t' t'') : SameObjects t t'' := by
  refine ⟨fun e => (h'.dirs e).trans (h.dirs e), ?_⟩
  intro e he
  rw [h'.others e ((h.dirs e).trans he), h.others e he]

theorem node_change_self (t : Tree) (d : Nat) (x : Node) (a : Action) : (t.change d x a).node d = x :=
  t.nodes.cell_set d x

theorem node_change_of_ne (t : Tree) (h : e ≠ d) (x : Node) (a : Action) :
    (t.change d x a).node e = t.node e := t.nodes.cell_set_ne x h

theorem sameObjects_change (hd : t.isDir d = true) (hx : x.isDir = true) (a : Action) :
    SameObjects t (t.change d x a) := by
  constructor
  · intro e
    by_cases he : e = d
    · rw [he, hd, isDir, node_change_self, hx]
    · rw [isDir, isDir, node_change_of_ne t he]
  intro e he
  have hne : e ≠ d := by
    rintro rfl
    exact Bool.false_ne_true (he.symm.trans hd)
  exact node_change_of_ne t hne x a

theorem sameObjects_unlinkAt (hd : t.isDir d = true) (n : Path) (i : Nat) :
    SameObjects t (t.unlinkAt d n i) := sameObjects_change hd ((isDir_drop _ n).trans hd) _

theorem sameObjects_linkAt (hd : t.isDir d = true) (n : Path) (i : Nat) : SameObjects t (t.linkAt d n i) :=
  sameObjects_change hd ((isDir_put _ n i).trans hd) _

theorem entry_unlinkAt_self (t : Tree) (d : Nat) (n : Path) (i : Nat) :
    (t.unlinkAt d n i).entry d n = none := by
  rw [entry, unlinkAt, node_change_self, entry_drop_self]

theorem entry_unlinkAt_of_ne (t : Tree) (h : (e, m) ≠ (d, n)) (i : Nat) :
    (t.unlinkAt d n i).entry e m = t.entry e m := by
  unfold entry unlinkAt
  by_cases he : e = d
  · subst he
    have hm : m ≠ n := fun hm => h (congrArg (Prod.mk e) hm)
    rw [node_change_self, entry_drop_of_ne _ hm]
  · rw [node_change_of_ne t he]

theorem entry_linkAt_self (hd : t.isDir d = true) (n : Path) (i : Nat) :
    (t.linkAt d n i).entry d n = some i := by
  rw [entry, linkAt, node_change_self, entry_put_self hd]

theorem entry_linkAt_of_ne (t : Tree) (h : (e, m) ≠ (d, n)) (i : Nat) :
    (t.linkAt d n i).entry e m = t.entry e m := by
  unfold entry linkAt
  by_cases he : e = d
  · subst he
    have hm : m ≠ n := fun hm => h (congrArg (Prod.mk e) hm)
    rw [node_change_self, entry_put_of_ne _ hm]
  · rw [node_change_of_ne t he]

theorem entry_vacate_of_ne (t : Tree) (h : (e, m) ≠ (d, n)) : (t.vacate d n).entry e m = t.entry e m := by
  unfold vacate
  split
  · rfl
  · exact entry_unlinkAt_of_ne t h _

theorem sameObjects_vacate (hd : t.isDir d = true) (n : Path) : SameObjects t (t.vacate d n) := by
  unfold vacate
  split
  · exact SameObjects.refl t
  · exact sameObjects_unlinkAt hd n _

section Move

variable {d d' : Nat} (hd : t.isDir d = true) (hd' : t.isDir d' = true) (n n' : Path) (i : Nat)
include hd hd'

theorem isDir_cleared (e : Nat) : ((t.vacate d' n').unlinkAt d n i).isDir e = t.isDir e := by
  have hv := sameObjects_vacate hd' n'
  exact ((sameObjects_unlinkAt ((hv.dirs d).trans hd) n i).dirs e).trans (hv.dirs e)

theorem sameObjects_moveAt : SameObjects t (t.moveAt d n d' n' i) := by
  have hv := sameObjects_vacate hd' n'
  have hu := hv.trans (sameObjects_unlinkAt ((hv.dirs d).trans hd) n i)
  exact hu.trans (sameObjects_linkAt ((hu.dirs d').trans hd') n' i)

theorem entry_moveAt_new : (t.moveAt d n d' n' i).entry d' n' = some i :=
  entry_linkAt_self ((isDir_cleared hd hd' n n' i d').trans hd') n' i

end Move

theorem entry_moveAt_old (t : Tree) (h : (d, n) ≠ (d', n')) (i : Nat) :
    (t.moveAt d n d' n' i).entry d n = none := by
  rw [moveAt, entry_linkAt_of_ne _ h, entry_unlinkAt_self]

theorem entry_moveAt_of_ne (t : Tree) (h : (e, m) ≠ (d, n))
    (h' : (e, m) ≠ (d', n')) (i : Nat) : (t.moveAt d n d' n' i).entry e m = t.entry e m := by
  rw [moveAt, entry_linkAt_of_ne _ h', entry_unlinkAt_of_ne _ h, entry_vacate_of_ne t h']

/-! ## The entry that a path ends with -/

/-- The path ends with the name `n`, looked up in the directory `d`. -/
def EndsAt (t : Tree) (p : Path) (d : Nat) (n : Path) : Prop :=
  lastName p = some n ∧ t.parent p = .ok d

theorem EndsAt.lstat (h : t.EndsAt p d n) {i : Nat} : t.lstat p = .ok i ↔ t.entry d n = some i := by
  rw [Tree.lstat, h.1]
  dsimp only
  rw [h.2]
  dsimp only
  cases t.entry d n with
  | none =>
    constructor
    · intro hi
      cases hi
    · intro hi
      cases hi
  | some j => exact ⟨fun hi => congrArg some (Except.ok.inj hi), fun hi => congrArg _ (Option.some.inj hi)⟩

theorem EndsAt.unique (h : t.EndsAt p d n) (h' : t.EndsAt p e m) : (d, n) = (e, m) := by
  have hd : d = e := Except.ok.inj (h.2.symm.trans h'.2)
  have hn : n = m := Option.some.inj (h.1.symm.trans h'.1)
  rw [hd, hn]

theorem isDir_of_parent (h : t.parent p = .ok d) : t.isDir d = true := by
  unfold parent at h
  split at h
  · split at h
    · rename_i hdir
      cases h
      exact hdir
    · cases h
  · cases h
  · cases h

theorem remove_ok (h : t.remove p = (.ok (), t')) :
    ∃ d n i, t.EndsAt p d n ∧ t.entry d n = some i ∧ t' = t.unlinkAt d n i := by
  unfold remove at h
  split at h
  · cases h
  rename_i n hn
  split at h
  · cases h
  rename_i d hp
  split at h
  · cases h
  rename_i i he
  split at h
  · cases h
  · cases h
    exact ⟨d, n, i, ⟨hn, hp⟩, he, rfl⟩

/-- What `rename` has done: nothing if both paths end with one object. -/
theorem rename_ok {old new : Path} (h : t.rename old new = (.ok (), t')) :
    ∃ d n d' n' i, t.EndsAt old d n ∧ t.EndsAt new d' n' ∧ t.entry d n = some i ∧
      (t.entry d' n' = some i ∧ t' = t ∨ t.entry d' n' ≠ some i ∧ t' = t.moveAt d n d' n' i) := by
  unfold rename at h
  split at h
  · rename_i n n' hn hn'
    split at h
    · rename_i d d' hp hp'
      split at h
      · cases h
      rename_i i he
      refine ⟨d, n, d', n', i, ⟨hn, hp⟩, ⟨hn', hp'⟩, he, ?_⟩
      split at h
      · rename_i hsame
        cases h
        exact Or.inl ⟨hsame, rfl⟩
      rename_i hother
      refine Or.inr ⟨hother, ?_⟩
      split at h
      · cases h
      split at h
      · cases h
      · cases h
        rfl
    · cases h
    · cases h
  · cases h

end Tree

end IshGo.Lib
