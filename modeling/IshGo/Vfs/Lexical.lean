/-
# `IshGo.Vfs.Lexical` — links read without `Resolve`

`FS.Readlink` and `FS.virtualPath` of `internal/vfs/fs.go`.  They put a guest's name below the root
as a text and leave the rest to the host, which follows every link before the last name.  Both
functions return their result together with the host paths that they have called `os.Lstat` or
`os.Readlink` on.

`lexical_discreet_iff` says for which trees and names they keep to the inside of the root
(`Discreet`).  The root has to be a real directory, and the tree `Numbered`, since the converse
puts a new object into it; nothing else is asked of the tree.
-/
import IshGo.Lib.FileAsks
import IshGo.Vfs.Resolve

namespace IshGo.Vfs

open Lib Path Tree List

variable {i : Nat} {a : Nat × Path} {guest n p : Path}
variable {hops : Nat} {host : Path}

/-- The errors of `Readlink`; a mounted file is not a link. -/
inductive LinkError where
  | notSymlink (name : Path)
  | resolve (e : ResolveError)
  deriving DecidableEq, Repr

namespace FS

/-- `Readlink`.  `virtual` tells the names of mounted files. -/
def readlink (f : FS) (virtual : Path → Bool) (t : Tree) (name : Path) :
    Except LinkError Path × List Path :=
  let name := clean name
  if virtual name then (.error (.notSymlink name), [])
  else
    match f.resolveLexical name with
    | .error e => (.error (.resolve e), [])
    | .ok host =>
      match t.readlink host with
      | .error e => (.error (.resolve (.host e)), [host])
      | .ok target => (.ok target, [host])

/-- Where a link in the place of `guest` leads. -/
def virtualNext (guest target : Path) : Path :=
  if isAbs target then clean target else clean (joinPath (dir guest) target)

/-- The loop of `virtualPath`. -/
def virtualLoop (f : FS) (virtual : Path → Bool) (t : Tree) (name : Path) :
    (hops : Nat) → Path → Except ResolveError (Path × Bool) × List Path
  | 0, _ => (.error (.tooManyHops name), [])
  | hops + 1, guest =>
    if virtual guest then (.ok (guest, true), [])
    else
      match f.resolveLexical guest with
      | .error e => (.error e, [])
      | .ok host =>
        match t.lstat host with
        | .error .noent => (.ok (guest, false), [host])
        | .error e => (.error (.host e), [host])
        | .ok i =>
          if t.isLink i = false then (.ok (guest, false), [host])
          else
            match t.readlink host with
            | .error e => (.error (.host e), [host, host])
            | .ok target =>
              let r := f.virtualLoop virtual t name hops (virtualNext guest target)
              (r.1, host :: host :: r.2)

def virtualPath (f : FS) (virtual : Path → Bool) (t : Tree) (name : Path) :
    Except ResolveError (Path × Bool) × List Path :=
  match validate name with
  | .error e => (.error e, [])
  | .ok () => f.virtualLoop virtual t name 40 (clean name)

end FS

/-! ## Inside the root -/

/-- Two trees with the same root: the path of the root is looked up in the same way, and what is
inside is the same.  About the rest nothing is said. -/
structure Agree (t t' : Tree) (R : List Path) (r : Nat) : Prop where
  root : t'.lstat (absolute R) = .ok r
  way : ∀ a ∈ t.asked (absolute R), Tree.SameAt t t' a
  inside : ∀ i, t.Inside r i → t'.node i = t.node i

/-- A call that keeps to the inside of the root, in every tree that agrees about it. -/
def Discreet {α : Type} (call : Tree → α × List Path) (t : Tree) (R : List Path) (r : Nat) : Prop :=
  ∀ t', Agree t t' R r →
    (∀ h ∈ (call t').2, ∀ i, t'.lstat h = .ok i → t'.Inside r i) ∧ (call t').1 = (call t).1

/-- A question that every tree answers alike that agrees about the root. -/
def Known (t : Tree) (R : List Path) (r : Nat) (a : Nat × Path) : Prop :=
  t.Inside r a.1 ∨ a ∈ t.asked (absolute R)

structure Stays (t : Tree) (R : List Path) (r : Nat) (h : Path) : Prop where
  known : ∀ a ∈ t.asked h, Known t R r a
  inside : ∀ i, t.lstat h = .ok i → t.Inside r i

/-- The path below the root that a guest's name stands for. -/
def hostPath (R : List Path) (guest : Path) : Path := absolute (R ++ guestNames guest)

/-- The lookup of a path asks for nothing but names in directories of the root and the names on the
way to the root.  If the last name is one on the way, it is that of something inside. -/
structure KeepsIn (t : Tree) (R : List Path) (r : Nat) (h : Path) : Prop where
  known : ∀ a ∈ t.asked h, Known t R r a
  last : ∀ d n i, lastName h = some n → t.parent h = .ok d → ¬ t.Inside r d →
    t.entry d n = some i → t.Inside r i

/-- A name whose link can be read from inside: a mounted one, one that is refused, or one whose
lookup keeps to the root. -/
def Reads (t : Tree) (R : List Path) (r : Nat) (virtual : Path → Bool) (guest : Path) : Prop :=
  virtual guest = true ∨ validate guest ≠ .ok () ∨ KeepsIn t R r (hostPath R guest)

/-- The same for a name and the names that the links in its place lead to. -/
def Follows (t : Tree) (R : List Path) (r : Nat) (virtual : Path → Bool) :
    (hops : Nat) → Path → Prop
  | 0, _ => True
  | hops + 1, guest =>
    virtual guest = true ∨ validate guest ≠ .ok () ∨
      (KeepsIn t R r (hostPath R guest) ∧ ∀ target, t.readlink (hostPath R guest) = .ok target →
        Follows t R r virtual hops (FS.virtualNext guest target))

/-- What `os.Lstat` and `os.Readlink` tell about a path: its target if it is a link. -/
def look (t : Tree) (h : Path) :
    Except Errno (Option Path) := (t.lstat h).map fun i => (t.node i).target

/-- What `Readlink` makes of it. -/
def told : Except Errno (Option Path) → Except LinkError Path
  | .error e => .error (.resolve (.host e))
  | .ok none => .error (.resolve (.host .inval))
  | .ok (some target) => .ok target

/-- What `virtualPath` makes of it; a link is followed. -/
def FS.seen (f : FS) (virtual : Path → Bool) (t : Tree) (name : Path) (hops : Nat)
    (guest host : Path) :
    Except Errno (Option Path) → Except ResolveError (Path × Bool) × List Path
  | .error .noent => (.ok (guest, false), [host])
  | .error e => (.error (.host e), [host])
  | .ok none => (.ok (guest, false), [host])
  | .ok (some target) =>
    let r := f.virtualLoop virtual t name hops (FS.virtualNext guest target)
    (r.1, host :: host :: r.2)

theorem readlink_cases (f : FS) (virtual : Path → Bool) (name : Path) :
    (∃ result, ∀ t, f.readlink virtual t name = (result, [])) ∨
    ∃ host, f.resolveLexical (clean name) = .ok host ∧
      ∀ t, f.readlink virtual t name = (told (look t host), [host]) := by
  by_cases hv : virtual (clean name) = true
  · exact Or.inl ⟨_, fun t => if_pos hv⟩
  cases hlex : f.resolveLexical (clean name) with
  | error e =>
    refine Or.inl ⟨.error (.resolve e), fun t => ?_⟩
    simp only [FS.readlink, if_neg hv, hlex]
  | ok host =>
    refine Or.inr ⟨host, rfl, fun t => ?_⟩
    simp only [FS.readlink, if_neg hv, hlex]
    unfold readlink look
    cases t.lstat host with
    | error e => rfl
    | ok i =>
      dsimp only [Except.map]
      cases t.node i <;> rfl

theorem virtualLoop_seen {f : FS} {virtual : Path → Bool} (hv : ¬virtual guest = true)
    (hlex : f.resolveLexical guest = .ok host) (name : Path) (hops : Nat) (t : Tree) :
    f.virtualLoop virtual t name (hops + 1) guest =
      f.seen virtual t name hops guest host (look t host) := by
  simp only [FS.virtualLoop, if_neg hv, hlex]
  unfold readlink look isLink
  cases t.lstat host with
  | error e => cases e <;> rfl
  | ok i =>
    dsimp only [Except.map]
    cases t.node i <;> rfl

theorem virtualLoop_cases (f : FS) (virtual : Path → Bool) (name : Path) (hops : Nat)
    (guest : Path) :
    (∃ result, ∀ t, f.virtualLoop virtual t name (hops + 1) guest = (result, [])) ∨
    ∃ host, f.resolveLexical guest = .ok host ∧
      ∀ t, f.virtualLoop virtual t name (hops + 1) guest =
        f.seen virtual t name hops guest host (look t host) := by
  by_cases hv : virtual guest = true
  · exact Or.inl ⟨_, fun t => if_pos hv⟩
  cases hlex : f.resolveLexical guest with
  | error e =>
    refine Or.inl ⟨.error e, fun t => ?_⟩
    simp only [FS.virtualLoop, if_neg hv, hlex]
  | ok host => exact Or.inr ⟨host, rfl, virtualLoop_seen hv hlex name hops⟩

theorem mem_seen (f : FS) (virtual : Path → Bool) (t : Tree) (name : Path) (hops : Nat)
    (guest host : Path)
    (found : Except Errno (Option Path)) :
      host ∈ (f.seen virtual t name hops guest host found).2 := by
  cases found with
  | error e => cases e <;> exact mem_cons_self
  | ok target => cases target <;> exact mem_cons_self

/-- A target that no name stands for: `validate` refuses it. -/
def refused : Path := [slash, backslash, backslash, 0x2e, 0x2e]

theorem virtualLoop_refused (f : FS) (virtual : Path → Bool) (t : Tree) (name : Path) (hops : Nat)
    (guest : Path) :
    (f.virtualLoop virtual t name hops (FS.virtualNext guest refused)).1 ≠ .ok (guest, false) := by
  have hnext : FS.virtualNext guest refused = refused := by
    rw [FS.virtualNext, if_pos (by decide)]
    decide
  have hlex : f.resolveLexical refused = .error (.traversal refused) := by
    have hval : validate refused = .error (.traversal refused) := by decide
    rw [FS.resolveLexical, hval]
  rw [hnext]
  cases hops with
  | zero =>
    intro h
    cases h
  | succ hops =>
    rw [FS.virtualLoop, hlex]
    split
    · intro h
      cases h
    · intro h
      cases h

/-! ## Trees that agree -/

section Agree

variable {t t' : Tree} {R : List Path} {r : Nat}

theorem isDir_zero (hR : Path.Names R) (hroot : t.lstat (absolute R) = .ok r) :
    t.isDir 0 = true := by
  rcases R.eq_nil_or_concat' with rfl | ⟨ds, n, rfl⟩
  · exact isDir_of_walk (find_of_stat hroot)
  · obtain ⟨d, hp, -⟩ := lstat_ok hR hroot
    exact isDir_of_walk ((parent_ok hR).mp hp).1

theorem Agree.refl (hroot : t.lstat (absolute R) = .ok r) : Agree t t R r :=
  ⟨hroot, fun _ _ => ⟨rfl, fun _ _ => rfl, fun _ _ => rfl⟩, fun _ _ => rfl⟩

theorem Agree.inside' (h : Agree t t' R r) (hi : t.Inside r i) : t'.Inside r i := by
  induction hi with
  | self => exact .self
  | entry n hd he ih =>
    refine ih.entry n ?_
    rw [entry, h.inside _ hd]
    exact he

theorem Agree.sameAt (h : Agree t t' R r) (ha : Known t R r a) : Tree.SameAt t t' a := by
  rcases ha with hin | hway
  · have hobj : ∀ i, t.entry a.1 a.2 = some i → t'.node i = t.node i := fun i hi =>
      h.inside i (hin.entry a.2 hi)
    refine ⟨?_, fun i hi => ?_, fun i hi => ?_⟩
    · rw [entry, h.inside _ hin, entry]
    · rw [isDir, hobj i hi, isDir]
    · rw [hobj i hi]
  · exact h.way a hway

variable (hR : Path.Names R) (hroot : t.lstat (absolute R) = .ok r)
include hR hroot

theorem Agree.lstat (h : Agree t t' R r) (hknown : ∀ a ∈ t.asked p, Known t R r a) :
    t'.lstat p = t.lstat p :=
  lstat_same ((isDir_zero hR h.root).trans (isDir_zero hR hroot).symm) fun a ha => h.sameAt (hknown a ha)

theorem Agree.look (h : Agree t t' R r) (hs : Stays t R r p) : look t' p = look t p := by
  unfold Vfs.look
  rw [h.lstat hR hroot hs.known]
  cases hp : t.lstat p with
  | error e => rfl
  | ok i => exact congrArg (fun x => Except.ok x.target) (h.inside i (hs.inside i hp))

theorem Agree.found (h : Agree t t' R r) (hs : Stays t R r p) (hi : t'.lstat p = .ok i) :
    t'.Inside r i := by
  rw [h.lstat hR hroot hs.known] at hi
  exact h.inside' (hs.inside i hi)

/-! ## Trees that do not -/

omit hR in
theorem agree_of_sameAt (h0 : t'.isDir 0 = t.isDir 0)
    (hway : ∀ a ∈ t.asked (absolute R), Tree.SameAt t t' a)
    (hinside : ∀ i, t.Inside r i → t'.node i = t.node i) : Agree t t' R r :=
  ⟨(lstat_same h0 hway).trans hroot, hway, hinside⟩

omit hR in
theorem agree_vacate (ha : t.isDir a.1 = true) (hun : ¬ Known t R r a) :
    Agree t (t.vacate a.1 a.2) R r := by
  refine agree_of_sameAt hroot ((sameObjects_vacate ha a.2).dirs 0) ?_ ?_
  · intro b hb
    refine sameAt_vacate ha ?_
    rintro rfl
    exact hun (Or.inr hb)
  intro i hi
  refine node_vacate_of_ne t ?_ a.2
  rintro rfl
  exact hun (Or.inl hi)

theorem isDir_of_way (ha : a ∈ t.asked (absolute R)) : t.isDir a.1 = true := by
  rcases R.eq_nil_or_concat' with rfl | ⟨ds, n, rfl⟩
  · have hnone : t.asked (absolute []) = [] := by
      have hd := isDir_zero hR hroot
      have hpass : t.pass [0] [[], []] = .object [0] := by
        rw [pass_empty hd, pass_empty hd, Tree.pass]
      show t.walkAsks maxLinks [0] [[], []] = []
      rw [walkAsks, hpass, passAsks_skip hd _ (Or.inl rfl), passAsks_skip hd _ (Or.inl rfl)]
      rfl
    rw [hnone] at ha
    exact absurd ha not_mem_nil
  · exact isDir_of_asked (lastName_snoc hR) ha

section Numbered

variable (hdir : t.isDir r = true) (hnum : Tree.Numbered t)
include hdir hnum

theorem agree_plant (ha : t.isDir a.1 = true) (hun : ¬ Known t R r a) (x : Node) :
    Agree t (t.plant a.1 a.2 x) R r := by
  refine agree_of_sameAt hroot
    (same_plant ha a.2 x (hnum.dirs 0 (isDir_zero hR hroot))).1 ?_ ?_
  · intro b hb
    refine sameAt_plant hnum ha a.2 x (isDir_of_way hR hroot hb) ?_
    rintro rfl
    exact hun (Or.inr hb)
  intro i hi
  have hlt : i < t.nodes.next := by
    cases hi with
    | self => exact hnum.dirs r hdir
    | entry n _ he => exact hnum.entries _ n i he
  refine node_plant_of_ne t a.2 x hlt ?_
  rintro rfl
  exact hun (Or.inl hi)

theorem disagree_of_lastName (hn : lastName p = some n)
    (hunknown : ¬ ∀ a ∈ t.asked p, Known t R r a) (target : Path) :
    (∃ t₁, Agree t t₁ R r ∧ look t₁ p = .error .noent) ∧
    ∃ t₂, Agree t t₂ R r ∧ (look t₂ p = .error .notdir ∨ look t₂ p = .ok (some target)) := by
  obtain ⟨pre, a, suf, hasked, hpre, hun⟩ := exists_first hunknown
  obtain ⟨last, hfirst⟩ := lstat_first hn hasked
  have hmem : ∀ {b}, b ∈ pre ∨ b = a → b ∈ t.asked p := by
    rintro b (hb | rfl)
    · exact hasked ▸ mem_append_left _ hb
    · exact hasked ▸ mem_append_right _ mem_cons_self
  have ha : t.isDir a.1 = true := isDir_of_asked hn (hmem (Or.inr rfl))
  have hsame : ∀ {t'}, Agree t t' R r → t'.isDir 0 = t.isDir 0 ∧ ∀ b ∈ pre, Tree.SameAt t t' b :=
    fun h =>
    ⟨(isDir_zero hR h.root).trans (isDir_zero hR hroot).symm, fun b hb => h.sameAt (hpre b hb)⟩
  constructor
  · have hagree := agree_vacate hroot ha hun
    refine ⟨_, hagree, ?_⟩
    rw [look, (hfirst _ (hsame hagree).1 (hsame hagree).2).2.1 (entry_vacate_self t a.1 a.2)]
    rfl
  cases last with
  | false =>
    have hagree := agree_plant hR hroot hdir hnum ha hun (.file [])
    have hnew := node_plant_next hnum ha a.2 (.file [])
    have hseen := ((hfirst _ (hsame hagree).1 (hsame hagree).2).2.2 _ (entry_plant_self ha a.2 _)).1 rfl
      (by rw [hnew]; rfl) (by rw [isDir, hnew]; rfl)
    refine ⟨_, hagree, Or.inl ?_⟩
    rw [look, hseen]
    rfl
  | true =>
    have hagree := agree_plant hR hroot hdir hnum ha hun (.link target)
    have hseen := ((hfirst _ (hsame hagree).1 (hsame hagree).2).2.2 _ (entry_plant_self ha a.2 _)).2 rfl
    refine ⟨_, hagree, Or.inr ?_⟩
    rw [look, hseen]
    show Except.ok ((t.plant a.1 a.2 (.link target)).node t.nodes.next).target = _
    rw [node_plant_next hnum ha]
    rfl

theorem exists_disagree (hlex : (FS.mk (absolute R)).resolveLexical guest = .ok host)
    (hunknown : ¬ ∀ a ∈ t.asked host, Known t R r a) (target : Path) :
    (∃ t₁, Agree t t₁ R r ∧ look t₁ host = .error .noent) ∧
    ∃ t₂, Agree t t₂ R r ∧ (look t₂ host = .error .notdir ∨ look t₂ host = .ok (some target)) := by
  have hhost := resolveLexical_ok hR hlex
  rcases (guestNames guest).eq_nil_or_concat' with hnil | ⟨gs, n, hsnoc⟩
  · rw [hnil, append_nil] at hhost
    exact absurd (fun a ha => Or.inr (hhost ▸ ha)) hunknown
  · have hnames := names_append.mpr ⟨hR, names_guestNames guest⟩
    rw [hsnoc, ← append_assoc] at hhost hnames
    exact disagree_of_lastName hR hroot hdir hnum (hhost ▸ lastName_snoc hnames) hunknown target

/-! ## The two calls -/

theorem discreet_readlink_iff (virtual : Path → Bool) (name : Path) :
    let f : FS := ⟨absolute R⟩
    Discreet (fun t => f.readlink virtual t name) t R r ↔
      ∀ h ∈ (f.readlink virtual t name).2, Stays t R r h := by
  intro f
  rcases readlink_cases f virtual name with ⟨result, hall⟩ | ⟨host, hlex, hall⟩
  · simp only [Discreet, hall]
    exact ⟨fun _ => forall_mem_nil _, fun _ _ _ => ⟨forall_mem_nil _, trivial⟩⟩
  simp only [Discreet, hall, forall_mem_singleton]
  constructor
  · intro h
    refine ⟨?_, (h t (Agree.refl hroot)).1⟩
    by_contra hunknown
    obtain ⟨⟨t₁, h₁, hlook₁⟩, t₂, h₂, hlook₂⟩ := exists_disagree hR hroot hdir hnum hlex hunknown []
    have hsame := (h t₁ h₁).2.trans (h t₂ h₂).2.symm
    rw [hlook₁] at hsame
    rcases hlook₂ with hlook₂ | hlook₂
    · rw [hlook₂] at hsame
      cases hsame
    · rw [hlook₂] at hsame
      cases hsame
  · intro hs t' hagree
    exact ⟨fun i hi => hagree.found hR hroot hs hi, congrArg told (hagree.look hR hroot hs)⟩

theorem known_of_virtualLoop (virtual : Path → Bool) (name : Path)
    (hsame : ∀ t', Agree t t' R r → ((FS.mk (absolute R)).virtualLoop virtual t' name hops guest).1 = ((FS.mk (absolute R)).virtualLoop virtual t name hops guest).1)
    (hin : ∀ h ∈ ((FS.mk (absolute R)).virtualLoop virtual t name hops guest).2, ∀ i,
      t.lstat h = .ok i → t.Inside r i) :
    ∀ h ∈ ((FS.mk (absolute R)).virtualLoop virtual t name hops guest).2, Stays t R r h := by
  induction hops generalizing guest with
  | zero => exact forall_mem_nil _
  | succ hops ih =>
    rcases virtualLoop_cases (FS.mk (absolute R)) virtual name hops guest with
      ⟨result, hall⟩ | ⟨host, hlex, hall⟩
    · rw [hall]
      exact forall_mem_nil _
    simp only [hall] at hsame hin ⊢
    have hhost : Stays t R r host := by
      refine ⟨?_, hin host (mem_seen ..)⟩
      by_contra hunknown
      obtain ⟨⟨t₁, h₁, hlook₁⟩, t₂, h₂, hlook₂⟩ :=
        exists_disagree hR hroot hdir hnum hlex hunknown refused
      have hdiff := (hsame t₁ h₁).trans (hsame t₂ h₂).symm
      rw [hlook₁] at hdiff
      rcases hlook₂ with hlook₂ | hlook₂
      · rw [hlook₂] at hdiff
        cases hdiff
      · rw [hlook₂] at hdiff
        exact virtualLoop_refused _ virtual t₂ name hops guest hdiff.symm
    have hagain : ∀ {t'}, Agree t t' R r → look t' host = look t host :=
      fun h => h.look hR hroot hhost
    cases hlook : look t host with
    | error e =>
      intro h hh
      have hmem : h ∈ [host] := by
        cases e <;> exact hh
      exact mem_singleton.mp hmem ▸ hhost
    | ok found =>
      cases found with
      | none =>
        intro h hh
        exact mem_singleton.mp hh ▸ hhost
      | some target =>
        rw [hlook] at hin
        have hnext : ∀ t', Agree t t' R r →
            ((FS.mk (absolute R)).virtualLoop virtual t' name hops (FS.virtualNext guest target)).1 =
              ((FS.mk (absolute R)).virtualLoop virtual t name hops
                (FS.virtualNext guest target)).1 := by
          intro t' h
          have hres := hsame t' h
          rw [hagain h, hlook] at hres
          exact hres
        have hrest := ih hnext fun h hh => hin h (mem_cons_of_mem _ (mem_cons_of_mem _ hh))
        intro h hh
        rcases mem_cons.mp hh with rfl | hh
        · exact hhost
        · rcases mem_cons.mp hh with rfl | hh
          · exact hhost
          · exact hrest h hh

omit hdir hnum in
theorem virtualLoop_same (virtual : Path → Bool) (name : Path) (hagree : Agree t t' R r)
    (hs : ∀ h ∈ ((FS.mk (absolute R)).virtualLoop virtual t name hops guest).2, Stays t R r h) :
    (FS.mk (absolute R)).virtualLoop virtual t' name hops guest =
      (FS.mk (absolute R)).virtualLoop virtual t name hops guest := by
  induction hops generalizing guest with
  | zero => rfl
  | succ hops ih =>
    rcases virtualLoop_cases (FS.mk (absolute R)) virtual name hops guest with
      ⟨result, hall⟩ | ⟨host, hlex, hall⟩
    · rw [hall, hall]
    rw [hall] at hs
    rw [hall, hall, hagree.look hR hroot (hs host (mem_seen ..))]
    cases hlook : look t host with
    | error e => cases e <;> rfl
    | ok found =>
      cases found with
      | none => rfl
      | some target =>
        rw [hlook] at hs
        have hrest := @ih (FS.virtualNext guest target)
          fun h hh => hs h (mem_cons_of_mem _ (mem_cons_of_mem _ hh))
        show (_, _) = (_, _)
        rw [hrest]

theorem discreet_virtualPath_iff (virtual : Path → Bool) (name : Path) :
    let f : FS := ⟨absolute R⟩
    Discreet (fun t => f.virtualPath virtual t name) t R r ↔
      ∀ h ∈ (f.virtualPath virtual t name).2, Stays t R r h := by
  intro f
  simp only [Discreet, FS.virtualPath]
  cases validate name with
  | error e =>
    exact ⟨fun _ => forall_mem_nil _, fun _ _ _ => ⟨forall_mem_nil _, rfl⟩⟩
  | ok u =>
    constructor
    · intro h
      exact known_of_virtualLoop hR hroot hdir hnum virtual name (fun t' ht' => (h t' ht').2)
        (h t (Agree.refl hroot)).1
    intro hs t' hagree
    have hsame := virtualLoop_same hR hroot virtual name hagree hs
    rw [hsame]
    exact ⟨fun h hh i hi => hagree.found hR hroot (hs h hh) hi, rfl⟩

end Numbered

/-! ## By tree and name -/

theorem stays_iff (guest : Path) :
    Stays t R r (hostPath R guest) ↔ KeepsIn t R r (hostPath R guest) := by
  have hnames := names_append.mpr ⟨hR, names_guestNames guest⟩
  unfold hostPath
  generalize guestNames guest = cs at hnames
  rcases (R ++ cs).eq_nil_or_concat' with hnil | ⟨ds, n, hsnoc⟩
  · -- the root of the host
    obtain ⟨rfl, rfl⟩ := append_eq_nil_iff.mp hnil
    refine ⟨fun h => ⟨h.known, fun d n i hn => ?_⟩, fun h => ⟨h.known, fun i hi => ?_⟩⟩
    · cases hn
    · cases hroot.symm.trans hi
      exact .self
  rw [hsnoc] at hnames ⊢
  refine ⟨fun h => ⟨h.known, fun d m i hm hp _ he => ?_⟩, fun h => ⟨h.known, fun i hi => ?_⟩⟩
  · refine h.inside i ?_
    rw [Tree.lstat, hm, hp]
    dsimp only
    rw [he]
  · obtain ⟨d, hp, he⟩ := lstat_ok hnames hi
    by_cases hd : t.Inside r d
    · exact hd.entry n he
    · exact h.last d n i (lastName_snoc hnames) hp hd he

theorem readlink_stays_iff (virtual : Path → Bool) (name : Path) :
    (∀ h ∈ ((FS.mk (absolute R)).readlink virtual t name).2, Stays t R r h) ↔
      Reads t R r virtual (clean name) := by
  unfold Reads FS.readlink
  by_cases hv : virtual (clean name) = true
  · simp only [if_pos hv]
    exact iff_of_true (forall_mem_nil _) (.inl hv)
  simp only [if_neg hv, resolveLexical_eq hR, or_iff_right hv]
  cases hval : validate (clean name) with
  | error e => exact iff_of_true (forall_mem_nil _) (.inl nofun)
  | ok u =>
    rw [or_iff_right (not_not.mpr rfl), ← stays_iff hR hroot, hostPath]
    show (∀ h ∈ (match t.readlink (absolute (R ++ guestNames (clean name))) with
      | .error e => (.error (.resolve (.host e)), _)
      | .ok target => (.ok target, _) : Except LinkError Path × List Path).2, _) ↔ _
    cases t.readlink (absolute (R ++ guestNames (clean name))) <;> exact forall_mem_singleton

omit hR hroot in
theorem readlink_look {target : Path} :
    t.readlink p = .ok target ↔ look t p = .ok (some target) := by
  unfold Tree.readlink look
  cases t.lstat p with
  | error e => exact ⟨nofun, nofun⟩
  | ok i =>
    dsimp only [Except.map]
    cases t.node i with
    | dir | file => exact ⟨nofun, nofun⟩
    | link target => exact ⟨fun h => by cases h; rfl, fun h => by cases h; rfl⟩

theorem virtualLoop_stays_iff (virtual : Path → Bool) (name : Path) :
    (∀ h ∈ ((FS.mk (absolute R)).virtualLoop virtual t name hops guest).2, Stays t R r h) ↔
      Follows t R r virtual hops guest := by
  induction hops generalizing guest with
  | zero => exact iff_of_true (forall_mem_nil _) trivial
  | succ hops ih =>
    rw [Follows]
    by_cases hv : virtual guest = true
    · rw [FS.virtualLoop, if_pos hv]
      exact iff_of_true (forall_mem_nil _) (.inl hv)
    rw [or_iff_right hv]
    have hlex := resolveLexical_eq hR guest
    cases hval : validate guest with
    | error e =>
      rw [hval] at hlex
      rw [FS.virtualLoop, if_neg hv, hlex]
      exact iff_of_true (forall_mem_nil _) (.inl nofun)
    | ok u =>
      rw [hval] at hlex
      rw [virtualLoop_seen hv hlex, or_iff_right (not_not.mpr rfl), ← stays_iff hR hroot]
      simp only [readlink_look]
      change (∀ h ∈ (FS.seen _ virtual t name hops guest (hostPath R guest) (look t (hostPath R guest))).2, _) ↔ _
      cases hlook : look t (hostPath R guest) with
      | error e =>
        have hone : (FS.seen ⟨absolute R⟩ virtual t name hops guest (hostPath R guest) (.error e)).2 =
            [hostPath R guest] := by cases e <;> rfl
        rw [hone, forall_mem_singleton]
        exact ⟨fun h => ⟨h, nofun⟩, And.left⟩
      | ok found =>
        cases found with
        | none => exact forall_mem_singleton.trans ⟨fun h => ⟨h, nofun⟩, And.left⟩
        | some target =>
          refine forall_mem_cons.trans ⟨fun ⟨h, hrest⟩ => ⟨h, ?_⟩, fun ⟨h, hrest⟩ => ⟨h, ?_⟩⟩
          · intro target' heq
            cases heq
            exact ih.mp (forall_mem_cons.mp hrest).2
          · exact forall_mem_cons.mpr ⟨h, ih.mpr (hrest target rfl)⟩

/-- `Readlink` and `virtualPath` keep to the inside of the root, whatever may be outside, exactly
if the host's lookups of the name, and of the names that the links in its place lead to, do. -/
theorem lexical_discreet_iff (hdir : t.isDir r = true) (hnum : Tree.Numbered t)
    (virtual : Path → Bool)
    (name : Path) :
    let f : FS := ⟨absolute R⟩
    (Discreet (fun t => f.readlink virtual t name) t R r ↔ Reads t R r virtual (clean name)) ∧
    (Discreet (fun t => f.virtualPath virtual t name) t R r ↔
      (validate name = .ok () → Follows t R r virtual 40 (clean name))) := by
  intro f
  refine ⟨(discreet_readlink_iff hR hroot hdir hnum virtual name).trans
    (readlink_stays_iff hR hroot virtual name),
    (discreet_virtualPath_iff hR hroot hdir hnum virtual name).trans ?_⟩
  unfold FS.virtualPath
  cases validate name with
  | error e => exact iff_of_true (forall_mem_nil _) nofun
  | ok u => exact (virtualLoop_stays_iff hR hroot virtual name).trans ⟨fun h _ => h, fun h => h rfl⟩

end Agree

/-! ## A link out of the root -/

/-- In the directory `/r` the name `l` is a link to `/`.  Outside of it, `/s` is a link to `/x`. -/
def upward : Tree :=
  { nodes :=
      { cell := fun
          | 0 => .dir [([0x72], 1), ([0x73], 3)]
          | 1 => .dir [([0x6c], 2)]
          | 2 => .link [0x2f]
          | 3 => .link [0x2f, 0x78]
          | _ => .file []
        next := 4 }
    log := [] }

theorem upward_names : Path.Names [[0x72]] :=
  names_singleton.mpr ⟨by decide, by decide, by decide, by decide⟩

theorem upward_entry {d : Nat} (h : upward.entry d n = some i) :
    d = 0 ∧ (i = 1 ∨ i = 3) ∨ d = 1 ∧ i = 2 := by
  have hmem : ∀ {entries : List (Path × Nat)}, entries.lookup n = some i →
    i ∈ entries.map Prod.snd := by
    intro entries he
    obtain ⟨front, back, rfl, -⟩ := lookup_eq_some_iff.mp he
    simp
  rcases d with _ | _ | _ | _ | d
  · have hi := hmem h
    simp at hi
    exact Or.inl ⟨rfl, hi⟩
  · have hi := hmem h
    simp at hi
    exact Or.inr ⟨rfl, hi⟩
  all_goals cases h

theorem upward_inside (h : upward.Inside 1 i) : i = 1 ∨ i = 2 := by
  induction h with
  | self => exact Or.inl rfl
  | entry n _ he ih =>
    rcases upward_entry he with ⟨rfl, -⟩ | ⟨-, rfl⟩
    · exact absurd ih (by decide)
    · exact Or.inr rfl

theorem upward_numbered : Tree.Numbered upward := by
  constructor
  · intro i hi
    rcases i with _ | _ | _ | _ | i
    all_goals first | decide | cases hi
  · intro d n i hi
    rcases upward_entry hi with ⟨-, rfl | rfl⟩ | ⟨-, rfl⟩
    all_goals decide

/-- The link itself can be read, and followed to the root. -/
theorem lexical_discreet_iff_link :
    let f : FS := ⟨absolute [[0x72]]⟩
    Discreet (fun t => f.readlink (fun _ => false) t [0x2f, 0x6c]) upward [[0x72]] 1 ∧
    Discreet (fun t => f.virtualPath (fun _ => false) t [0x2f, 0x6c]) upward [[0x72]] 1 := by
  intro f
  have hroot : upward.lstat (absolute [[0x72]]) = .ok 1 := by decide +kernel
  have hasked : upward.asked (absolute [[0x72], [0x6c]]) = [(0, [0x72]), (1, [0x6c])] := by
    decide +kernel
  have hlink : KeepsIn upward [[0x72]] 1 (absolute [[0x72], [0x6c]]) := by
    refine ⟨?_, fun d n i _ hp hd _ => absurd ?_ hd⟩
    · rw [hasked]
      exact forall_mem_cons.mpr
        ⟨Or.inr (by decide +kernel), forall_mem_singleton.mpr (Or.inl .self)⟩
    · cases (show upward.parent (absolute [[0x72], [0x6c]]) = .ok 1 by decide +kernel).symm.trans hp
      exact .self
  have hself : KeepsIn upward [[0x72]] 1 (absolute [[0x72]]) := by
    refine ⟨fun _ ha => Or.inr ha, fun d n i hn hp _ he => ?_⟩
    have hi : upward.lstat (absolute [[0x72]]) = .ok i := by
      rw [Tree.lstat, hn, hp]
      dsimp only
      rw [he]
    cases hroot.symm.trans hi
    exact .self
  have hexact := lexical_discreet_iff upward_names hroot (by decide +kernel) upward_numbered
    (fun _ => false) [0x2f, 0x6c]
  have hread : upward.readlink (absolute [[0x72], [0x6c]]) = .ok [0x2f] := by decide +kernel
  refine ⟨hexact.1.mpr (.inr (.inr hlink)), hexact.2.mpr fun _ => .inr (.inr ⟨hlink, ?_⟩)⟩
  intro target htarget
  cases hread.symm.trans htarget
  refine .inr (.inr ⟨hself, fun target htarget => ?_⟩)
  cases (show upward.readlink (absolute [[0x72]]) = .error .inval by decide +kernel).symm.trans htarget

/-- Through the link a guest reads what is outside.  In another tree, with the same root, there is
nothing to read. -/
theorem lexical_reads_outside :
    let f : FS := ⟨absolute [[0x72]]⟩
    let name : Path := [0x2f, 0x6c, 0x2f, 0x73]
    let bare := upward.vacate 0 [0x73]
    absolute [[0x72], [0x6c], [0x73]] ∈ (f.readlink (fun _ => false) upward name).2 ∧
    absolute [[0x72], [0x6c], [0x73]] ∈ (f.virtualPath (fun _ => false) upward name).2 ∧
    upward.lstat (absolute [[0x72], [0x6c], [0x73]]) = .ok 3 ∧ ¬ upward.Inside 1 3 ∧
    Agree upward bare [[0x72]] 1 ∧
    (f.readlink (fun _ => false) upward name).1 = .ok [0x2f, 0x78] ∧
    (f.readlink (fun _ => false) bare name).1 = .error (.resolve (.host .noent)) ∧
    (f.virtualPath (fun _ => false) upward name).1 = .ok ([0x2f, 0x78], false) ∧
    (f.virtualPath (fun _ => false) bare name).1 = .ok (name, false) := by
  intro f name bare
  have hroot : upward.lstat (absolute [[0x72]]) = .ok 1 := by decide +kernel
  have hout : ∀ i, upward.Inside 1 i → i ≠ 0 ∧ i ≠ 3 := by
    intro i hi
    rcases upward_inside hi with rfl | rfl
    all_goals decide
  have hunknown : ¬ Known upward [[0x72]] 1 (0, [0x73]) := by
    rintro (hin | hway)
    · exact (hout 0 hin).1 rfl
    · exact absurd hway (by decide +kernel)
  refine ⟨by decide +kernel, by decide +kernel, by decide +kernel, fun h => (hout 3 h).2 rfl,
    agree_vacate hroot (by decide +kernel) hunknown, by decide +kernel, by decide +kernel,
    by decide +kernel, by decide +kernel⟩

end IshGo.Vfs
