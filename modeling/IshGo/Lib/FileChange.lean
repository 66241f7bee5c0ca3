/-
# `IshGo.Lib.FileChange` — calls that change a file tree

The calls of `IshGo.Lib.FileTree` that make, link, remove and write.  Each of them ends in one of
four changes to the objects, and each change is logged.
-/
import IshGo.Lib.FileTree
import Mathlib.Algebra.GroupWithZero.Nat

namespace IshGo.Lib

open Lib.Path List

variable {d i : Nat} {m n : Path}

def Node.put : Node → Path → Nat → Node
  | .dir entries, n, i => .dir ((n, i) :: entries)
  | x, _, _ => x

open Node

def Node.drop : Node → Path → Node
  | .dir entries, n => .dir (entries.filter fun e => e.1 ≠ n)
  | x, _ => x

/-- The bytes that have been written. -/
def written (log : List Action) : Nat :=
  (log.map fun | .write _ count => count | _ => 0).sum

theorem lookup_filter_self (entries : List (Path × Nat)) (n : Path) :
    (entries.filter fun e => e.1 ≠ n).lookup n = none := by
  refine lookup_eq_none_iff.mpr fun e he => ?_
  exact bne_iff_ne.mpr (Ne.symm (of_decide_eq_true (mem_filter.mp he).2))

theorem lookup_filter_of_ne (entries : List (Path × Nat)) (h : m ≠ n) :
    (entries.filter fun e => e.1 ≠ n).lookup m = entries.lookup m := by
  induction entries with
  | nil => rfl
  | cons e es ih =>
    obtain ⟨k, i⟩ := e
    by_cases hk : k = n
    · rw [filter_cons_of_neg (by simp [hk]), lookup_cons, hk, beq_eq_false_iff_ne.mpr h]
      exact ih
    · rw [filter_cons_of_pos (by simp [hk]), lookup_cons, lookup_cons, ih]

@[simp] theorem Node.isDir_put (x : Node) (n : Path) (i : Nat) : (x.put n i).isDir = x.isDir := by
  cases x <;> rfl

@[simp] theorem Node.isDir_drop (x : Node) (n : Path) : (x.drop n).isDir = x.isDir := by
  cases x <;> rfl

namespace Tree

/-! ## The four changes -/

def change (t : Tree) (i : Nat) (x : Node) (a : Action) : Tree :=
  { nodes := t.nodes.set i x, log := a :: t.log }

def make (t : Tree) (d : Nat) (n : Path) (x : Node) : Tree :=
  { nodes := (t.nodes.alloc x).set d ((t.node d).put n t.nodes.next)
    log := .make d n t.nodes.next :: t.log }

def linkAt (t : Tree) (d : Nat) (n : Path) (i : Nat) : Tree :=
  t.change d ((t.node d).put n i) (.link d n i)

def unlinkAt (t : Tree) (d : Nat) (n : Path) (i : Nat) : Tree :=
  t.change d ((t.node d).drop n) (.unlink d n i)

def write (t : Tree) (i : Nat) (content : List (BitVec 8)) : Tree :=
  t.change i (.file content) (.write i content.length)

/-! ## The calls -/

def makeAt (t : Tree) (p : Path) (x : Node) : Except Errno Unit × Tree :=
  match lastName p with
  | none => (.error .exist, t)
  | some n =>
    match t.parent p with
    | .error e => (.error e, t)
    | .ok d => if t.entry d n ≠ none then (.error .exist, t) else (.ok (), t.make d n x)

def mkdir (t : Tree) (p : Path) : Except Errno Unit × Tree := t.makeAt p (.dir [])

def symlink (t : Tree) (target p : Path) : Except Errno Unit × Tree :=
  if target = [] then (.error .noent, t) else t.makeAt p (.link target)

def link (t : Tree) (old new : Path) : Except Errno Unit × Tree :=
  match t.lstat old with
  | .error e => (.error e, t)
  | .ok i =>
    match lastName new with
    | none => (.error .exist, t)
    | some n =>
      match t.parent new with
      | .error e => (.error e, t)
      | .ok d =>
        if t.entry d n ≠ none then (.error .exist, t)
        else if t.isDir i then (.error .perm, t)
        else (.ok (), t.linkAt d n i)

/-- A name and, if it is the last one, its object; directories only when they are empty. -/
def remove (t : Tree) (p : Path) : Except Errno Unit × Tree :=
  match lastName p with
  | none => (.error .inval, t)
  | some n =>
    match t.parent p with
    | .error e => (.error e, t)
    | .ok d =>
      match t.entry d n with
      | none => (.error .noent, t)
      | some i =>
        match t.node i with
        | .dir (_ :: _) => (.error .notempty, t)
        | _ => (.ok (), t.unlinkAt d n i)

/-- Opened for writing: an old file loses its content, a missing one is made. -/
def openTrunc (t : Tree) (p : Path) : Except Errno Nat × Tree :=
  match t.find p with
  | .error e => (.error e, t)
  | .ok (.vacant d n) => (.ok t.nodes.next, t.make d n (.file []))
  | .ok (.object i) =>
    match t.node i with
    | .dir _ => (.error .isdir, t)
    | .link _ => (.error .loop, t)
    | .file _ => (.ok i, t.write i [])

/-- A directory at the path with these names, the last one first, and the directories above it. -/
def mkdirNames (t : Tree) : List Path → Except Errno Unit × Tree
  | [] => (.ok (), t)
  | c :: up =>
    let p := absolute (c :: up).reverse
    match t.stat p with
    | .ok i => (if t.isDir i then .ok () else .error .notdir, t)
    | .error _ =>
      match t.mkdirNames up with
      | (.error e, t) => (.error e, t)
      | (.ok (), t) =>
        match t.mkdir p with
        | (.ok (), t) => (.ok (), t)
        | (.error e, t) =>
          match t.lstat p with
          | .ok i => (if t.isDir i then .ok () else .error e, t)
          | .error _ => (.error e, t)

def mkdirAll (t : Tree) (p : Path) : Except Errno Unit × Tree := t.mkdirNames (elements p).reverse

/-! ## What an object is after another is made -/

variable {t : Tree}

theorem node_make_next (t : Tree) (hd : d < t.nodes.next) (n : Path) (x : Node) :
    (t.make d n x).node t.nodes.next = x :=
  ((t.nodes.alloc x).cell_set_ne _ (Nat.ne_of_gt hd)).trans (t.nodes.cell_alloc x)

theorem node_make_self (t : Tree) (d : Nat) (n : Path) (x : Node) :
    (t.make d n x).node d = (t.node d).put n t.nodes.next := (t.nodes.alloc x).cell_set d _

theorem node_make_other (t : Tree) (n : Path) (x : Node) (hi : i < t.nodes.next) (hne : i ≠ d) :
    (t.make d n x).node i = t.node i :=
  ((t.nodes.alloc x).cell_set_ne _ hne).trans (t.nodes.cell_alloc_lt x hi)

end Tree

end IshGo.Lib
