/-
# `IshGo.Kernel.Entries` — `unlink` and `rename`, and the entries they are called for

`unlink` and `rename` of `internal/kernel/syscall.go`, over the file tree of the host.  Both of
them give a guest's name to `FS.Resolve`, and what comes back to `os.Remove` and `os.Rename`.
-/
import IshGo.Kernel.Descriptors
import IshGo.Vfs.Places

namespace IshGo.Kernel

open I386 Lib Vfs Path Tree

variable {d d' e i : Nat} {host m n n' name : Path} {t' : Tree}
variable {f : FS} {j : Nat} {newHost newName : Path} {s : KState}
variable {t : Tree}

/-! ## The calls -/

/-- `os.Rename`, which does not replace a directory. -/
def osRename (t : Tree) (oldname newname : Path) : Except Errno Unit × Tree :=
  match t.lstat newname with
  | .error _ => t.rename oldname newname
  | .ok j =>
    if t.isDir j then
      match t.lstat oldname with
      | .error e => (.error e, t)
      | .ok i => if newname = oldname ∨ i ≠ j then (.error .exist, t) else t.rename oldname newname
    else t.rename oldname newname

def KState.unlink (f : FS) (t : Tree) (s : KState) (pathAddr : U32) : KState × Tree :=
  match s.mem.readCString pathAddr 4096 with
  | none => (s.ret efault, t)
  | some name =>
    if s.kern.fs = false then (s.ret efault, t)
    else
      match f.resolve t (s.guestPath name) with
      | .error _ => (s.ret efault, t)
      | .ok host =>
        match t.remove host with
        | (.error .noent, t) => (s.ret enoent, t)
        | (.error _, t) => (s.ret efault, t)
        | (.ok (), t) => (s.ret 0, t)

def KState.rename (f : FS) (t : Tree) (s : KState) (oldAddr newAddr : U32) : KState × Tree :=
  match s.mem.readCString oldAddr 4096 with
  | none => (s.ret efault, t)
  | some oldName =>
    match s.mem.readCString newAddr 4096 with
    | none => (s.ret efault, t)
    | some newName =>
      if s.kern.fs = false then (s.ret efault, t)
      else
        match f.resolve t (s.guestPath oldName) with
        | .error _ => (s.ret efault, t)
        | .ok oldHost =>
          match f.resolve t (s.guestPath newName) with
          | .error _ => (s.ret efault, t)
          | .ok newHost =>
            match osRename t oldHost newHost with
            | (.error _, t) => (s.ret efault, t)
            | (.ok (), t) => (s.ret 0, t)

/-! ## What they are meant for -/

/-- The entry is gone; every other entry is there, and leads to the same object. -/
structure Unlinked (t t' : Tree) (d : Nat) (n : Path) : Prop where
  gone : t'.entry d n = none
  others : ∀ e m, (e, m) ≠ (d, n) → t'.entry e m = t.entry e m
  objects : Tree.SameObjects t t'

/-- The object `i` is under the new name, and no longer under the old one unless that is the same;
every other entry is there, and leads to the same object. -/
structure Moved (t t' : Tree) (d : Nat) (n : Path) (d' : Nat) (n' : Path) (i : Nat) : Prop where
  here : t'.entry d' n' = some i
  gone : (d, n) ≠ (d', n') → t'.entry d n = none
  others : ∀ e m, (e, m) ≠ (d, n) → (e, m) ≠ (d', n') → t'.entry e m = t.entry e m
  objects : Tree.SameObjects t t'

/-! ## What they have done when they return 0 -/

theorem eax_ret_ne (s : KState) {v : U32} (hv : v ≠ 0) : (s.ret v).cpu.regs EAX ≠ 0 := hv

theorem unlink_zero {addr : U32} (h : (s.unlink f t addr).1.cpu.regs EAX = 0) :
    ∃ name host, s.mem.readCString addr 4096 = some name ∧ f.resolve t (s.guestPath name) = .ok host ∧
      t.remove host = (.ok (), (s.unlink f t addr).2) := by
  unfold KState.unlink at h
  split at h
  · exact absurd h (eax_ret_ne s (by decide))
  rename_i name hname
  split at h
  · exact absurd h (eax_ret_ne s (by decide))
  rename_i hfs
  split at h
  · exact absurd h (eax_ret_ne s (by decide))
  rename_i host hhost
  split at h
  · exact absurd h (eax_ret_ne s (by decide))
  · exact absurd h (eax_ret_ne s (by decide))
  · rename_i t' hremove
    refine ⟨name, host, hname, hhost, ?_⟩
    simp only [KState.unlink, hname, if_neg hfs, hhost, hremove]

theorem rename_zero {oldAddr newAddr : U32}
    (h : (s.rename f t oldAddr newAddr).1.cpu.regs EAX = 0) :
    ∃ oldName newName oldHost newHost, s.mem.readCString oldAddr 4096 = some oldName ∧
      s.mem.readCString newAddr 4096 = some newName ∧
      f.resolve t (s.guestPath oldName) = .ok oldHost ∧ f.resolve t (s.guestPath newName) = .ok newHost ∧
      osRename t oldHost newHost = (.ok (), (s.rename f t oldAddr newAddr).2) := by
  unfold KState.rename at h
  split at h
  · exact absurd h (eax_ret_ne s (by decide))
  rename_i oldName holdName
  split at h
  · exact absurd h (eax_ret_ne s (by decide))
  rename_i newName hnewName
  split at h
  · exact absurd h (eax_ret_ne s (by decide))
  rename_i hfs
  split at h
  · exact absurd h (eax_ret_ne s (by decide))
  rename_i oldHost hold
  split at h
  · exact absurd h (eax_ret_ne s (by decide))
  rename_i newHost hnew
  split at h
  · exact absurd h (eax_ret_ne s (by decide))
  · rename_i t' hrename
    refine ⟨oldName, newName, oldHost, newHost, holdName, hnewName, hold, hnew, ?_⟩
    simp only [KState.rename, holdName, hnewName, if_neg hfs, hold, hnew, hrename]

theorem osRename_ok {oldname newname : Path}
    (h : osRename t oldname newname = (.ok (), t')) : t.rename oldname newname = (.ok (), t') ∧
      ∀ i j, t.lstat oldname = .ok i → t.lstat newname = .ok j → t.isDir j = true → i = j := by
  unfold osRename at h
  split at h
  · rename_i e hnew
    refine ⟨h, fun i j _ hj => ?_⟩
    rw [hnew] at hj
    cases hj
  rename_i k hnew
  split at h
  · split at h
    · cases h
    rename_i l hold
    split at h
    · cases h
    rename_i hsame
    refine ⟨h, fun i j hi hj _ => ?_⟩
    rw [hold] at hi
    rw [hnew] at hj
    cases hi
    cases hj
    exact not_not.mp (not_or.mp hsame).2
  · rename_i hdir
    refine ⟨h, fun i j _ hj hjdir => ?_⟩
    rw [hnew] at hj
    cases hj
    exact absurd hjdir hdir

/-! ## The entry, and what `Resolve` makes of it -/

section
variable (hd : t.isDir d = true)
include hd

theorem unlinked_unlinkAt : Unlinked t (t.unlinkAt d n i) d n :=
  ⟨t.entry_unlinkAt_self d n i, fun _ _ h => t.entry_unlinkAt_of_ne h i, sameObjects_unlinkAt hd n i⟩

theorem unlinked_unlinkAt_iff (hi : t.entry d n = some i) :
    Unlinked t (t.unlinkAt d n i) e m ↔ (d, n) = (e, m) := by
  constructor
  · intro h
    by_contra hne
    have hsame := h.others d n hne
    rw [t.entry_unlinkAt_self, hi] at hsame
    cases hsame
  · rintro ⟨⟩
    exact unlinked_unlinkAt hd

theorem moved_moveAt (hd' : t.isDir d' = true) : Moved t (t.moveAt d n d' n' i) d n d' n' i :=
  ⟨entry_moveAt_new hd hd' n n' i, fun h => t.entry_moveAt_old h i,
    fun _ _ h h' => t.entry_moveAt_of_ne h h' i, sameObjects_moveAt hd hd' n n' i⟩

/-- Only what was moved is in the new place, and only what was there is replaced. -/
theorem moved_moveAt_iff {e' : Nat} {m' : Path}
    (hd' : t.isDir d' = true) (hi : t.entry d n = some i) (hj : t.entry e m = some j)
    (hother : t.entry d' n' ≠ some i) :
    Moved t (t.moveAt d n d' n' i) e m e' m' j ↔ (d, n) = (e, m) ∧ (d', n') = (e', m') := by
  have hne : (d, n) ≠ (d', n') := by
    rintro ⟨⟩
    exact hother hi
  constructor
  · intro h
    -- two entries have changed, so these are the two
    have hold : (d, n) ≠ (e', m') := by
      rintro ⟨⟩
      have := h.here
      rw [t.entry_moveAt_old hne] at this
      cases this
    have hfrom : (d, n) = (e, m) := by
      by_contra hfrom
      have hsame := h.others d n hfrom hold
      rw [t.entry_moveAt_old hne, hi] at hsame
      cases hsame
    refine ⟨hfrom, ?_⟩
    by_contra hto
    have hsame := h.others d' n' (fun heq => hne (hfrom.trans heq.symm)) hto
    rw [entry_moveAt_new hd hd'] at hsame
    exact hother hsame.symm
  · rintro ⟨⟨⟩, ⟨⟩⟩
    obtain rfl : i = j := Option.some.inj (hi.symm.trans hj)
    exact moved_moveAt hd hd'

end

theorem moved_self_iff (hi : t.entry d n = some i) : Moved t t d n d' n' i ↔ (d, n) = (d', n') := by
  constructor
  · intro h
    by_contra hne
    rw [h.gone hne] at hi
    cases hi
  · rintro ⟨⟩
    exact ⟨hi, fun h => absurd rfl h, fun _ _ _ _ => rfl, Tree.SameObjects.refl t⟩

/-- Neither the entry nor what it replaces is a link, and it is not replaced by another name of its
own object. -/
def Plain (t : Tree) (d : Nat) (n : Path) (d' : Nat) (n' : Path) (i : Nat) : Prop :=
  t.isLink i = false ∧
    ∀ j, t.entry d' n' = some j → t.isLink j = false ∧ (j = i → (d, n) = (d', n'))

def SameEnd (f : FS) (t : Tree) (name name' : Path) : Prop :=
  ∃ host host' j, f.resolve t name = .ok host ∧ f.resolve t name' = .ok host' ∧
    t.lstat host = .ok j ∧ t.lstat host' = .ok j

section Exact

variable {t : Tree} {R : List Path} {r : Nat} (hR : Path.Names R)
  (hroot : t.lstat (absolute R) = .ok r) (hrdir : t.isDir r = true)
include hR hroot hrdir

section
variable (hp : (FS.mk (absolute R)).Place t name d n)
include hp

/-- `Resolve` and a call that does not follow links: what the call takes is in the place exactly if no
link is. -/
theorem endsAt_iff
    (hi : t.entry d n = some i) (hres : (FS.mk (absolute R)).resolve t name = .ok host)
    (hend : t.EndsAt host e m) (hj : t.entry e m = some j) : (e, m) = (d, n) ↔ t.isLink i = false := by
  have hreach := reaches_of_lstat hR hroot hrdir
  constructor
  · rintro ⟨⟩
    obtain rfl : i = j := Option.some.inj (hi.symm.trans hj)
    exact resolve_notLink hR hreach hroot hrdir hres (hend.lstat.mpr hj)
  intro hlink
  refine hend.unique (Place.endsAt hR hreach hp ?_ hres)
  intro k hk
  obtain rfl : i = k := Option.some.inj (hi.symm.trans hk)
  exact hlink

theorem moved_iff (hi : t.entry d n = some i) (hp' : (FS.mk (absolute R)).Place t newName d' n')
    (hres : (FS.mk (absolute R)).resolve t name = .ok host)
    (hres' : (FS.mk (absolute R)).resolve t newName = .ok newHost)
    (hren : t.rename host newHost = (.ok (), t')) : Moved t t' d n d' n' i ↔
      Plain t d n d' n' i ∨
        (d, n) = (d', n') ∧ SameEnd ⟨absolute R⟩ t name newName := by
  have hreach := reaches_of_lstat hR hroot hrdir
  obtain ⟨e, m, e', m', j, hend, hend', hj, hdone⟩ := rename_ok hren
  have hfrom := endsAt_iff hR hroot hrdir hp hi hres hend hj
  -- without links both calls end in the places
  have hplain : Plain t d n d' n' i → (e, m) = (d, n) ∧ (e', m') = (d', n') := fun h =>
    ⟨hfrom.mpr h.1, hend'.unique (Place.endsAt hR hreach hp' (fun k hk => (h.2 k hk).1) hres')⟩
  rcases hdone with ⟨hsame, rfl⟩ | ⟨hother, rfl⟩
  · rw [moved_self_iff hi]
    constructor
    · intro h
      exact Or.inr ⟨h, host, newHost, j, hres, hres', hend.lstat.mpr hj, hend'.lstat.mpr hsame⟩
    rintro (h | h)
    · obtain ⟨⟨⟩, ⟨⟩⟩ := hplain h
      obtain rfl : i = j := Option.some.inj (hi.symm.trans hj)
      exact (h.2 i hsame).2 rfl
    · exact h.1
  rw [moved_moveAt_iff (isDir_of_entry hj) (isDir_of_parent hend'.2) hj hi hother]
  constructor
  · rintro ⟨⟨⟩, ⟨⟩⟩
    obtain rfl : i = j := Option.some.inj (hi.symm.trans hj)
    refine Or.inl ⟨hfrom.mp rfl, fun k hk => ⟨?_, ?_⟩⟩
    · exact resolve_notLink hR hreach hroot hrdir hres' (hend'.lstat.mpr hk)
    · rintro rfl
      exact absurd hk hother
  rintro (h | ⟨-, h⟩)
  · exact hplain h
  obtain ⟨host₁, host₂, k, h₁, h₂, hk₁, hk₂⟩ := h
  obtain rfl := Except.ok.inj (hres.symm.trans h₁)
  obtain rfl := Except.ok.inj (hres'.symm.trans h₂)
  obtain rfl : j = k := Option.some.inj (hj.symm.trans (hend.lstat.mp hk₁))
  exact absurd (hend'.lstat.mp hk₂) hother

theorem place_of_rename
    (hi : t.entry d n = some i) (hfile : t.isDir i = false) (hlink : t.isLink i = false)
    (hres : (FS.mk (absolute R)).resolve t name = .ok host)
    (hres' : (FS.mk (absolute R)).resolve t newName = .ok newHost)
    (hren : osRename t host newHost = (.ok (), t')) :
    ∃ d' n', (FS.mk (absolute R)).Place t newName d' n' := by
  have hreach := reaches_of_lstat hR hroot hrdir
  obtain ⟨hren, hreplace⟩ := osRename_ok hren
  obtain ⟨e, m, e', m', j, hend, hend', hj, -⟩ := rename_ok hren
  rcases place_of_resolve hR hreach hres' hend'.2 with rfl | hplace
  · obtain ⟨⟩ := (endsAt_iff hR hroot hrdir hp hi hres hend hj).mpr hlink
    obtain rfl := hreplace i r (hend.lstat.mpr hi) hroot hrdir
    exact absurd (hfile.symm.trans hrdir) Bool.false_ne_true
  · exact hplace

end

/-- For the entry of a file or a link that a name stands for.  `unlink` removes it exactly if it is
not a link; `rename` moves it exactly if neither it nor what it replaces is a link, and what it
replaces is not a second name of its object, or if it is renamed to itself. -/
theorem entry_calls_exact (s : KState) (addr : U32) {name : Path}
    (hname : s.mem.readCString addr 4096 = some name) {d : Nat} {n : Path} {i : Nat}
    (hplace : (FS.mk (absolute R)).Place t (s.guestPath name) d n) (hentry : t.entry d n = some i)
    (hfile : t.isDir i = false) :
    let f : FS := ⟨absolute R⟩
    ((s.unlink f t addr).1.cpu.regs EAX = 0 →
      (Unlinked t (s.unlink f t addr).2 d n ↔ t.isLink i = false)) ∧
    ∀ newAddr newName, s.mem.readCString newAddr 4096 = some newName →
      (s.rename f t addr newAddr).1.cpu.regs EAX = 0 →
      (t.isLink i = false → ∃ d' n', f.Place t (s.guestPath newName) d' n') ∧
      ∀ d' n', f.Place t (s.guestPath newName) d' n' →
        (Moved t (s.rename f t addr newAddr).2 d n d' n' i ↔
          Plain t d n d' n' i ∨
            (d, n) = (d', n') ∧ SameEnd f t (s.guestPath name) (s.guestPath newName)) := by
  intro f
  constructor
  · intro hzero
    obtain ⟨name', host, hname', hres, hremove⟩ := unlink_zero hzero
    obtain rfl := Option.some.inj (hname.symm.trans hname')
    obtain ⟨e, m, j, hend, hj, htree⟩ := remove_ok hremove
    rw [htree, unlinked_unlinkAt_iff (isDir_of_entry hj) hj]
    exact endsAt_iff hR hroot hrdir hplace hentry hres hend hj
  intro newAddr newName hnew hzero
  obtain ⟨name', newName', host, newHost, hname', hnew', hres, hres', hren⟩ := rename_zero hzero
  obtain rfl := Option.some.inj (hname.symm.trans hname')
  obtain rfl := Option.some.inj (hnew.symm.trans hnew')
  refine ⟨fun hlink => place_of_rename hR hroot hrdir hplace hentry hfile hlink hres hres' hren, ?_⟩
  intro d' n' hplace'
  exact moved_iff hR hroot hrdir hplace hentry hplace' hres hres' (osRename_ok hren).1

end Exact

/-! ## A link next to its target -/

/-- In the directory `/r` the name `l` is a link to `f`, which is a file. -/
def besideTarget : Tree :=
  { nodes :=
      { cell := fun
          | 0 => .dir [([0x72], 1)]
          | 1 => .dir [([0x6c], 2), ([0x66], 3)]
          | 2 => .link [0x66]
          | _ => .file [1]
        next := 4 }
    log := [] }

/-- The names `/l`, `/m` and `/f` at 0, 4 and 8. -/
def namesTask : KState :=
  KState.new true none CPU.new
    { Memory.new 4096 with
      data := fun x =>
        if x = 0 then 0x2f else if x = 1 then 0x6c
        else if x = 4 then 0x2f else if x = 5 then 0x6d
        else if x = 8 then 0x2f else if x = 9 then 0x66
        else 0 }
    Objects.new

theorem place_besideTarget {c : U8} (hc : c ≠ 0x2e ∧ c ≠ 0x2f) :
    (FS.mk (absolute [[0x72]])).Place besideTarget [0x2f, c] 1 [c] := by
  have hguest : guestNames [0x2f, c] = [] ++ [[c]] := by
    have hname : Path.IsName [c] := by
      refine ⟨List.cons_ne_nil _ _, fun h => hc.1 (List.cons.inj h).1, fun h => ?_, fun h => ?_⟩
      · cases (List.cons.inj h).2
      · exact hc.2 (List.mem_singleton.mp h).symm
    exact guestNames_absolute (names_singleton.mpr hname)
  exact ⟨[], _, hguest, (show _ = Except.ok (absolute [[0x72]]) by decide +kernel), by decide +kernel,
    by decide +kernel⟩

/-- The file is removed, and moved, as it should be. -/
theorem entry_calls_exact_file :
    Unlinked besideTarget (namesTask.unlink ⟨absolute [[0x72]]⟩ besideTarget 8).2 1 [0x66] ∧
    Moved besideTarget (namesTask.rename ⟨absolute [[0x72]]⟩ besideTarget 8 4).2 1 [0x66] 1 [0x6d] 3 := by
  have hR : Path.Names [[0x72]] :=
    names_singleton.mpr ⟨by decide, by decide, by decide, by decide⟩
  have hexact := entry_calls_exact hR (t := besideTarget) (r := 1) (by decide +kernel) (by decide +kernel)
    namesTask 8 (show namesTask.mem.readCString 8 4096 = some [0x2f, 0x66] by decide +kernel)
    (place_besideTarget ⟨by decide, by decide⟩) (i := 3) (by decide +kernel) (by decide +kernel)
  refine ⟨(hexact.1 (by decide +kernel)).mpr (by decide +kernel), ?_⟩
  refine ((hexact.2 4 [0x2f, 0x6d] (by decide +kernel) (by decide +kernel)).2 1 [0x6d]
    (place_besideTarget ⟨by decide, by decide⟩)).mpr (Or.inl ⟨by decide +kernel, fun j hj => ?_⟩)
  have hnone : besideTarget.entry 1 [0x6d] = none := by decide +kernel
  cases hj

/-- `unlink` of the link removes the file and leaves the link, and `rename` moves the file. -/
theorem entry_calls_follow_link :
    let f : FS := ⟨absolute [[0x72]]⟩
    let unlinked := namesTask.unlink f besideTarget 0
    let renamed := namesTask.rename f besideTarget 0 4
    f.Place besideTarget [0x2f, 0x6c] 1 [0x6c] ∧ besideTarget.entry 1 [0x6c] = some 2 ∧
    besideTarget.isDir 2 = false ∧
    (unlinked.1.cpu.regs EAX = 0 ∧ unlinked.2.entry 1 [0x6c] = some 2 ∧ unlinked.2.entry 1 [0x66] = none ∧
      ¬ Unlinked besideTarget unlinked.2 1 [0x6c]) ∧
    (renamed.1.cpu.regs EAX = 0 ∧ renamed.2.entry 1 [0x6c] = some 2 ∧ renamed.2.entry 1 [0x66] = none ∧
      renamed.2.entry 1 [0x6d] = some 3 ∧ ¬ Moved besideTarget renamed.2 1 [0x6c] 1 [0x6d] 2) := by
  intro f unlinked renamed
  have hunlink : unlinked.2.entry 1 [0x6c] = some 2 := by decide +kernel
  have hrename : renamed.2.entry 1 [0x6c] = some 2 := by decide +kernel
  refine ⟨place_besideTarget ⟨by decide, by decide⟩, by decide +kernel, by decide +kernel,
    ⟨by decide +kernel, hunlink, by decide +kernel, fun h => ?_⟩,
    ⟨by decide +kernel, hrename, by decide +kernel, by decide +kernel, fun h => ?_⟩⟩
  · exact absurd (hunlink.symm.trans h.gone) (by decide)
  · exact absurd (hrename.symm.trans (h.gone (by decide))) (by decide)

end IshGo.Kernel
