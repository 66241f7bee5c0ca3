/-
# `IshGo.Lib.FileAsks` — what a lookup depends on

A lookup asks directories for names, one after the other.  `asked` has what it asks for, and a
second tree in which all of that is the same (`SameAt`) gives the same answer (`lstat_same`).
-/
import IshGo.Lib.FileMove

namespace IshGo.Lib

open Lib.Path List

variable {pre suf : List (Nat × Path)} {todo : List Path} {i links : Nat} {a : Nat × Path}
  {p : Path}
variable {d : Nat} {n : Path}

def Node.target : Node → Option Path
  | .link target => some target
  | _ => none

def Stop.trail : Stop → List Nat
  | .object trail => trail
  | .link trail _ _ => trail
  | _ => []

/-- An element of two lists, one after the other: of the second, or of the first. -/
theorem append_eq_append_cons {α : Type} {as bs cs ds : List α} {x : α} (h : as ++ bs = cs ++ x :: ds) :
    (∃ mid, cs = as ++ mid ∧ bs = mid ++ x :: ds) ∨ ∃ mid, as = cs ++ x :: mid := by
  rcases append_eq_append_iff.mp h with ⟨mid, hcs, hbs⟩ | ⟨mid, has, hrest⟩
  · exact Or.inl ⟨mid, hcs, hbs⟩
  cases mid with
  | nil => exact Or.inl ⟨[], (has.trans (append_nil cs)).symm ▸ (append_nil cs).symm, hrest.symm⟩
  | cons y mid =>
    obtain ⟨rfl, -⟩ := cons.inj hrest
    exact Or.inr ⟨mid, has⟩

/-- The first element without a property. -/
theorem exists_first {α : Type} {P : α → Prop} {l : List α} (h : ¬ ∀ a ∈ l, P a) :
    ∃ pre a suf, l = pre ++ a :: suf ∧ (∀ b ∈ pre, P b) ∧ ¬ P a := by
  induction l with
  | nil => exact absurd (fun a ha => absurd ha not_mem_nil) h
  | cons x l ih =>
    by_cases hx : P x
    · obtain ⟨pre, a, suf, rfl, hpre, ha⟩ := ih fun hl => h (forall_mem_cons.mpr ⟨hx, hl⟩)
      exact ⟨x :: pre, a, suf, rfl, forall_mem_cons.mpr ⟨hx, hpre⟩, ha⟩
    · exact ⟨[], x, l, rfl, fun b hb => absurd hb not_mem_nil, hx⟩

namespace Tree

def passAsks (t : Tree) : List Nat → List Path → List (Nat × Path)
  | _, [] => []
  | trail, c :: rest =>
    let d := trail.headD 0
    if t.isDir d = false then []
    else if c = [] ∨ c = dot then t.passAsks trail rest
    else if c = dotdot then t.passAsks (if trail.tail = [] then trail else trail.tail) rest
    else
      (d, c) ::
        match t.entry d c with
        | none => []
        | some i =>
          match (t.node i).target with
          | some _ => []
          | none => t.passAsks (i :: trail) rest

def walkAsks (t : Tree) : (links : Nat) → List Nat → List Path → List (Nat × Path)
  | links, trail, todo =>
    t.passAsks trail todo ++
      match t.pass trail todo with
      | .link trail target rest =>
        match links with
        | 0 => []
        | links + 1 => t.walkAsks links (if isAbs target then [0] else trail) (Path.split target ++ rest)
      | _ => []

/-- What `lstat` asks for: the directories on the way, and the last name. -/
def asked (t : Tree) (p : Path) : List (Nat × Path) :=
  match lastName p with
  | none => t.walkAsks maxLinks [0] (Path.split p)
  | some n =>
    t.walkAsks maxLinks [0] (Path.split p).dropLast ++
      match t.parent p with
      | .ok d => [(d, n)]
      | .error _ => []

/-- The same answer to a question: the same object, which is a directory, or a link to the same
target, in both trees or in none. -/
structure SameAt (t t' : Tree) (a : Nat × Path) : Prop where
  entry : t'.entry a.1 a.2 = t.entry a.1 a.2
  dir : ∀ i, t.entry a.1 a.2 = some i → t'.isDir i = t.isDir i
  target : ∀ i, t.entry a.1 a.2 = some i → (t'.node i).target = (t.node i).target

def SameDirs (t t' : Tree) (trail : List Nat) : Prop := ∀ d ∈ 0 :: trail, t'.isDir d = t.isDir d

variable {t t' : Tree}

theorem SameDirs.head {trail : List Nat} (h : SameDirs t t' trail) :
    t'.isDir (trail.headD 0) = t.isDir (trail.headD 0) := by
  cases trail with
  | nil => exact h 0 mem_cons_self
  | cons d ds => exact h d (mem_cons_of_mem 0 mem_cons_self)

theorem SameDirs.nil {trail : List Nat} (h : SameDirs t t' trail) : SameDirs t t' [] := by
  intro d hd
  exact h d (mem_singleton.mp hd ▸ mem_cons_self)

theorem SameDirs.up {trail : List Nat} (h : SameDirs t t' trail) :
    SameDirs t t' (if trail.tail = [] then trail else trail.tail) := by
  split
  · exact h
  intro d hd
  rcases mem_cons.mp hd with rfl | hd
  · exact h 0 mem_cons_self
  · exact h d (mem_cons_of_mem 0 (mem_of_mem_tail hd))

theorem SameDirs.push {trail : List Nat} (h : SameDirs t t' trail) (hi : t'.isDir i = t.isDir i) :
    SameDirs t t' (i :: trail) := by
  intro d hd
  rcases mem_cons.mp hd with rfl | hd
  · exact h 0 mem_cons_self
  · rcases mem_cons.mp hd with rfl | hd
    · exact hi
    · exact h d (mem_cons_of_mem 0 hd)

theorem SameDirs.start (h : t'.isDir 0 = t.isDir 0) : SameDirs t t' [0] := by
  intro d hd
  rcases mem_cons.mp hd with rfl | hd
  · exact h
  · exact mem_singleton.mp hd ▸ h

/-! ## The steps of a pass -/

section Steps

variable {trail : List Nat} (hdir : t.isDir (trail.headD 0) = true) {c : Path} (rest : List Path)
include hdir

theorem pass_skip (hc : c = [] ∨ c = dot) : t.pass trail (c :: rest) = t.pass trail rest := by
  rw [pass, if_neg (ne_false_of_eq_true hdir), if_pos hc]

theorem passAsks_skip (hc : c = [] ∨ c = dot) : t.passAsks trail (c :: rest) = t.passAsks trail rest := by
  rw [passAsks, if_neg (ne_false_of_eq_true hdir), if_pos hc]

theorem pass_up (hc : ¬ (c = [] ∨ c = dot)) (hup : c = dotdot) :
    t.pass trail (c :: rest) = t.pass (if trail.tail = [] then trail else trail.tail) rest := by
  rw [pass, if_neg (ne_false_of_eq_true hdir), if_neg hc, if_pos hup]

theorem passAsks_up (hc : ¬ (c = [] ∨ c = dot)) (hup : c = dotdot) :
    t.passAsks trail (c :: rest) = t.passAsks (if trail.tail = [] then trail else trail.tail) rest := by
  rw [passAsks, if_neg (ne_false_of_eq_true hdir), if_neg hc, if_pos hup]

theorem pass_entry (hc : ¬ (c = [] ∨ c = dot)) (hup : c ≠ dotdot) :
    t.pass trail (c :: rest) =
      match t.entry (trail.headD 0) c with
      | none => if rest = [] then .vacant (trail.headD 0) c else .failed .noent
      | some i =>
        match (t.node i).target with
        | some target => .link trail target rest
        | none => t.pass (i :: trail) rest := by
  rw [pass, if_neg (ne_false_of_eq_true hdir), if_neg hc, if_neg hup]
  cases t.entry (trail.headD 0) c with
  | none => rfl
  | some i =>
    dsimp only
    cases t.node i <;> rfl

theorem passAsks_entry (hc : ¬ (c = [] ∨ c = dot)) (hup : c ≠ dotdot) :
    t.passAsks trail (c :: rest) =
      (trail.headD 0, c) ::
        match t.entry (trail.headD 0) c with
        | none => []
        | some i =>
          match (t.node i).target with
          | some _ => []
          | none => t.passAsks (i :: trail) rest := by
  rw [passAsks, if_neg (ne_false_of_eq_true hdir), if_neg hc, if_neg hup]

end Steps

theorem passAsks_notDir {trail : List Nat} (hdir : t.isDir (trail.headD 0) = false) (c : Path)
    (rest : List Path) : t.passAsks trail (c :: rest) = [] := by
  rw [passAsks, if_pos hdir]

/-! ## The same answers -/

theorem pass_same {trail : List Nat} (hd : SameDirs t t' trail)
    (h : ∀ a ∈ t.passAsks trail todo, SameAt t t' a) :
    t'.pass trail todo = t.pass trail todo ∧ SameDirs t t' (t.pass trail todo).trail := by
  induction todo generalizing trail with
  | nil => exact ⟨rfl, hd⟩
  | cons c rest ih =>
    have hhead := hd.head
    cases hdir : t.isDir (trail.headD 0) with
    | false =>
      rw [pass_notDir hdir, pass_notDir (hhead.trans hdir)]
      exact ⟨rfl, hd.nil⟩
    | true =>
      have hdir' := hhead.trans hdir
      by_cases hc : c = [] ∨ c = dot
      · rw [passAsks_skip hdir rest hc] at h
        rw [pass_skip hdir rest hc, pass_skip hdir' rest hc]
        exact ih hd h
      by_cases hup : c = dotdot
      · rw [passAsks_up hdir rest hc hup] at h
        rw [pass_up hdir rest hc hup, pass_up hdir' rest hc hup]
        exact ih hd.up h
      rw [passAsks_entry hdir rest hc hup] at h
      have hsame := h _ mem_cons_self
      rw [pass_entry hdir rest hc hup, pass_entry hdir' rest hc hup, hsame.entry]
      cases he : t.entry (trail.headD 0) c with
      | none =>
        dsimp only
        split <;> exact ⟨rfl, hd.nil⟩
      | some i =>
        dsimp only
        rw [he] at h
        rw [hsame.target i he]
        cases ht : (t.node i).target with
        | some target => exact ⟨rfl, hd⟩
        | none =>
          dsimp only at h
          rw [ht] at h
          exact ih (hd.push (hsame.dir i he)) fun a ha => h a (mem_cons_of_mem _ ha)

theorem walk_same {trail : List Nat} (hd : SameDirs t t' trail)
    (h : ∀ a ∈ t.walkAsks links trail todo, SameAt t t' a) :
    t'.walk links trail todo = t.walk links trail todo ∧
      ∀ d, t.walk links trail todo = .ok (.object d) → t'.isDir d = t.isDir d := by
  -- on the number of links; only a pass that stops at a link goes on
  induction links using Nat.strongRecOn generalizing trail todo with
  | ind links ih =>
    rw [walkAsks] at h
    obtain ⟨hp, htrail⟩ := pass_same hd fun a ha => h a (mem_append_left _ ha)
    rw [walk, walk, hp]
    cases hpass : t.pass trail todo with
    | object trail =>
      rw [hpass] at htrail
      refine ⟨rfl, fun d hd => ?_⟩
      cases hd
      exact htrail.head
    | vacant d n => exact ⟨rfl, fun d hd => by cases hd⟩
    | failed e => exact ⟨rfl, fun d hd => by cases hd⟩
    | link trail target rest =>
      cases links with
      | zero => exact ⟨rfl, fun d hd => by cases hd⟩
      | succ links =>
        rw [hpass] at h htrail
        refine ih links (Nat.lt_succ_self links) ?_ fun a ha => h a (mem_append_right _ ha)
        split
        · exact SameDirs.start (htrail 0 mem_cons_self)
        · exact htrail

theorem parent_same (h0 : t'.isDir 0 = t.isDir 0)
    (h : ∀ a ∈ t.walkAsks maxLinks [0] (Path.split p).dropLast, SameAt t t' a) :
    t'.parent p = t.parent p := by
  obtain ⟨hwalk, hend⟩ := walk_same (SameDirs.start h0) h
  rw [parent, parent, hwalk]
  cases hw : t.walk maxLinks [0] (Path.split p).dropLast with
  | error e => rfl
  | ok spot =>
    cases spot with
    | object d =>
      dsimp only
      rw [hend d hw]
    | vacant d n => rfl

theorem lstat_same (h0 : t'.isDir 0 = t.isDir 0) (h : ∀ a ∈ t.asked p, SameAt t t' a) :
    t'.lstat p = t.lstat p := by
  unfold asked at h
  rw [lstat, lstat]
  cases hn : lastName p with
  | none =>
    rw [hn] at h
    rw [stat, stat, find, find, (walk_same (SameDirs.start h0) h).1]
  | some n =>
    rw [hn] at h
    rw [parent_same h0 fun a ha => h a (mem_append_left _ ha)]
    cases hp : t.parent p with
    | error e => rfl
    | ok d =>
      rw [hp] at h
      have hlast := (h (d, n) (mem_append_right _ mem_cons_self)).entry
      dsimp only at hlast ⊢
      rw [hlast]

/-! ## The first answer that is not the same -/

def Asked (t : Tree) (a : Nat × Path) : Prop :=
  t.isDir a.1 = true ∧ ¬ (a.2 = [] ∨ a.2 = dot) ∧ a.2 ≠ dotdot

theorem pass_first {trail : List Nat} (hd : SameDirs t t' trail)
    (hasks : t.passAsks trail todo = pre ++ a :: suf) (hpre : ∀ b ∈ pre, SameAt t t' b) :
    t.Asked a ∧ t'.Asked a ∧
      ∃ trail' rest, trail'.headD 0 = a.1 ∧ t'.pass trail todo = t'.pass trail' (a.2 :: rest) := by
  induction todo generalizing trail pre with
  | nil => simp [passAsks] at hasks
  | cons c rest ih =>
    have hhead := hd.head
    cases hdir : t.isDir (trail.headD 0) with
    | false =>
      rw [passAsks_notDir hdir] at hasks
      simp at hasks
    | true =>
      have hdir' := hhead.trans hdir
      by_cases hc : c = [] ∨ c = dot
      · rw [passAsks_skip hdir rest hc] at hasks
        rw [pass_skip hdir' rest hc]
        exact ih hd hasks hpre
      by_cases hup : c = dotdot
      · rw [passAsks_up hdir rest hc hup] at hasks
        rw [pass_up hdir' rest hc hup]
        exact ih hd.up hasks hpre
      rw [passAsks_entry hdir rest hc hup] at hasks
      cases pre with
      | nil =>
        obtain ⟨rfl, -⟩ := cons.inj hasks
        exact ⟨⟨hdir, hc, hup⟩, ⟨hdir', hc, hup⟩, trail, rest, rfl, rfl⟩
      | cons b pre =>
        obtain ⟨rfl, hmore⟩ := cons.inj hasks
        have hsame := hpre _ mem_cons_self
        rw [pass_entry hdir' rest hc hup, hsame.entry]
        cases he : t.entry (trail.headD 0) c with
        | none =>
          rw [he] at hmore
          simp at hmore
        | some i =>
          rw [he] at hmore
          dsimp only at hmore ⊢
          rw [hsame.target i he]
          cases ht : (t.node i).target with
          | some target =>
            rw [ht] at hmore
            simp at hmore
          | none =>
            rw [ht] at hmore
            exact ih (hd.push (hsame.dir i he)) hmore fun b hb => hpre b (mem_cons_of_mem _ hb)

theorem walk_first {trail : List Nat} (hd : SameDirs t t' trail)
    (hasks : t.walkAsks links trail todo = pre ++ a :: suf) (hpre : ∀ b ∈ pre, SameAt t t' b) :
    t.Asked a ∧ t'.Asked a ∧
      ∃ links' trail' rest, trail'.headD 0 = a.1 ∧
        t'.walk links trail todo = t'.walk links' trail' (a.2 :: rest) := by
  induction links using Nat.strongRecOn generalizing trail todo pre with
  | ind links ih =>
    rw [walkAsks] at hasks
    rcases append_eq_append_cons hasks with ⟨mid, rfl, hlater⟩ | ⟨mid, hmid⟩
    · -- after this pass
      obtain ⟨hp, htrail⟩ := pass_same hd fun b hb => hpre b (mem_append_left _ hb)
      cases hpass : t.pass trail todo with
      | object trail =>
        rw [hpass] at hlater
        simp at hlater
      | vacant d n =>
        rw [hpass] at hlater
        simp at hlater
      | failed e =>
        rw [hpass] at hlater
        simp at hlater
      | link trail' target rest =>
        rw [hpass] at hlater hp htrail
        cases links with
        | zero => simp at hlater
        | succ links =>
          rw [walk, hp]
          refine ih links (Nat.lt_succ_self links) ?_ hlater fun b hb =>
            hpre b (mem_append_right _ hb)
          split
          · exact SameDirs.start (htrail 0 mem_cons_self)
          · exact htrail
    · obtain ⟨hask, hask', trail', rest, hd', hpass⟩ := pass_first hd hmid hpre
      exact ⟨hask, hask', links, trail', rest, hd', walk_congr hpass links⟩

/-! ## What a lookup sees of it -/

theorem walk_none (h : t.Asked a) {trail : List Nat} (hd : trail.headD 0 = a.1)
    (he : t.entry a.1 a.2 = none) (links : Nat) (rest : List Path) :
    t.walk links trail (a.2 :: rest) = .ok (.vacant a.1 a.2) ∨
      t.walk links trail (a.2 :: rest) = .error .noent := by
  rw [walk, pass_entry (hd ▸ h.1) rest h.2.1 h.2.2, hd, he]
  by_cases hrest : rest = []
  · exact Or.inl (by rw [hrest]; rfl)
  · exact Or.inr (by dsimp only; rw [if_neg hrest])

theorem walk_file (h : t.Asked a) {trail : List Nat} (hd : trail.headD 0 = a.1)
    (he : t.entry a.1 a.2 = some i) (ht : (t.node i).target = none) (hi : t.isDir i = false)
    (links : Nat) (rest : List Path) : t.walk links trail (a.2 :: rest) = .ok (.object i) ∨
      t.walk links trail (a.2 :: rest) = .error .notdir := by
  rw [walk, pass_entry (hd ▸ h.1) rest h.2.1 h.2.2, hd, he]
  dsimp only
  rw [ht]
  cases rest with
  | nil => exact Or.inl rfl
  | cons c rest =>
    rw [pass_notDir (show t.isDir ((i :: trail).headD 0) = false from hi)]
    exact Or.inr rfl

theorem lstat_first (hn : lastName p = some n) (hasked : t.asked p = pre ++ a :: suf) :
    ∃ last : Bool, ∀ t', t'.isDir 0 = t.isDir 0 → (∀ b ∈ pre, SameAt t t' b) →
      t'.isDir a.1 = true ∧
      (t'.entry a.1 a.2 = none → t'.lstat p = .error .noent) ∧
      ∀ i, t'.entry a.1 a.2 = some i →
        (last = false → (t'.node i).target = none → t'.isDir i = false → t'.lstat p = .error .notdir) ∧
        (last = true → t'.lstat p = .ok i) := by
  unfold asked at hasked
  rw [hn] at hasked
  rcases append_eq_append_cons hasked with ⟨mid, rfl, hlast⟩ | ⟨mid, hmid⟩
  · refine ⟨true, fun t' h0 hpre => ?_⟩
    have hparent := parent_same h0 fun b hb => hpre b (mem_append_left _ hb)
    cases hp : t.parent p with
    | error e =>
      rw [hp] at hlast
      simp at hlast
    | ok d =>
      rw [hp] at hlast hparent
      obtain ⟨rfl, hmid⟩ : a = (d, n) ∧ mid = [] := by
        cases mid with
        | nil => exact ⟨(cons.inj hlast).1.symm, rfl⟩
        | cons b mid => simp at hlast
      have hend : t'.EndsAt p d n := ⟨hn, hparent⟩
      refine ⟨isDir_of_parent hparent, fun he => ?_, fun i he =>
        ⟨fun h => absurd h.symm Bool.false_ne_true, fun _ => hend.lstat.mpr he⟩⟩
      rw [lstat, hn]
      rw [hparent]
      dsimp only
      rw [he]
  · refine ⟨false, fun t' h0 hpre => ?_⟩
    obtain ⟨-, hask, links, trail, rest, hd, hwalk⟩ := walk_first (SameDirs.start h0) hmid hpre
    refine ⟨hask.1, fun he => ?_, fun i he => ⟨fun _ ht hi => ?_, fun h => absurd h Bool.false_ne_true⟩⟩
    · rw [lstat, hn, parent, hwalk]
      rcases walk_none hask hd he links rest with hw | hw
      · rw [hw]
      · rw [hw]
    rw [lstat, hn, parent, hwalk]
    rcases walk_file hask hd he ht hi links rest with hw | hw
    · rw [hw]
      dsimp only
      rw [hi]
      rfl
    · rw [hw]

theorem isDir_of_asked (hn : lastName p = some n) (ha : a ∈ t.asked p) : t.isDir a.1 = true := by
  obtain ⟨pre, suf, hasked⟩ := append_of_mem ha
  obtain ⟨last, hfirst⟩ := lstat_first hn hasked
  exact (hfirst t rfl fun b _ => ⟨rfl, fun _ _ => rfl, fun _ _ => rfl⟩).1

/-! ## One entry changed -/

/-- Directories and what they hold have numbers that have been given out. -/
structure Numbered (t : Tree) : Prop where
  dirs : ∀ i, t.isDir i = true → i < t.nodes.next
  entries : ∀ d n i, t.entry d n = some i → i < t.nodes.next

def plant (t : Tree) (d : Nat) (n : Path) (x : Node) : Tree := (t.vacate d n).make d n x

theorem Node.target_of_isDir {x : Node} (h : x.isDir = true) : x.target = none := by
  cases x with
  | dir entries => rfl
  | file content => rfl
  | link target => cases h

theorem SameObjects.target (h : SameObjects t t') (i : Nat) : (t'.node i).target = (t.node i).target := by
  cases hi : t.isDir i with
  | false => rw [h.others i hi]
  | true => rw [Node.target_of_isDir hi, Node.target_of_isDir ((h.dirs i).trans hi)]

theorem next_vacate (t : Tree) (d : Nat) (n : Path) : (t.vacate d n).nodes.next = t.nodes.next := by
  unfold vacate
  split <;> rfl

theorem node_vacate_of_ne (t : Tree) (h : i ≠ d) (n : Path) : (t.vacate d n).node i = t.node i := by
  unfold vacate
  split
  · rfl
  · exact node_change_of_ne t h _ _

theorem entry_vacate_self (t : Tree) (d : Nat) (n : Path) : (t.vacate d n).entry d n = none := by
  unfold vacate
  split
  · assumption
  · exact entry_unlinkAt_self t d n _

theorem sameAt_vacate (hd : t.isDir d = true) (ha : a ≠ (d, n)) : SameAt t (t.vacate d n) a :=
  have h := sameObjects_vacate hd n
  ⟨entry_vacate_of_ne t ha, fun i _ => h.dirs i, fun i _ => h.target i⟩

theorem entry_plant_self (hd : t.isDir d = true) (n : Path) (x : Node) :
    (t.plant d n x).entry d n = some t.nodes.next := by
  rw [entry, plant, node_make_self, next_vacate]
  exact Node.entry_put_self ((sameObjects_vacate hd n).dirs d |>.trans hd) n _

theorem node_plant_of_ne (t : Tree) (n : Path) (x : Node) (hi : i < t.nodes.next)
    (hne : i ≠ d) : (t.plant d n x).node i = t.node i := by
  rw [plant, node_make_other _ n x ((next_vacate t d n).symm ▸ hi) hne, node_vacate_of_ne t hne]

section Plant

variable (hnum : Numbered t) {d : Nat} (hd : t.isDir d = true) (n : Path) (x : Node)
include hnum hd

theorem node_plant_next : (t.plant d n x).node t.nodes.next = x := by
  have h := node_make_next (t.vacate d n) ((next_vacate t d n).symm ▸ hnum.dirs d hd) n x
  rwa [next_vacate] at h

omit hnum in
theorem same_plant (hi : i < t.nodes.next) :
    (t.plant d n x).isDir i = t.isDir i ∧ ((t.plant d n x).node i).target = (t.node i).target := by
  by_cases hne : i = d
  · subst hne
    have hdir : (t.plant i n x).isDir i = true := by
      rw [isDir, plant, node_make_self, Node.isDir_put]
      exact ((sameObjects_vacate hd n).dirs i).trans hd
    rw [hdir, hd, Node.target_of_isDir hd, Node.target_of_isDir hdir]
    exact ⟨rfl, rfl⟩
  · rw [isDir, isDir, node_plant_of_ne t n x hi hne]
    exact ⟨rfl, rfl⟩

theorem sameAt_plant (hadir : t.isDir a.1 = true) (ha : a ≠ (d, n)) : SameAt t (t.plant d n x) a := by
  have hobj := fun i hi => same_plant hd n x (hnum.entries a.1 a.2 i hi)
  refine ⟨?_, fun i hi => (hobj i hi).1, fun i hi => (hobj i hi).2⟩
  obtain ⟨e, m⟩ := a
  by_cases hne : e = d
  · subst hne
    have hm : m ≠ n := fun hm => ha (congrArg (Prod.mk e) hm)
    rw [entry, plant, node_make_self, Node.entry_put_of_ne _ hm]
    exact entry_vacate_of_ne t ha
  · rw [entry, entry, node_plant_of_ne t n x (hnum.dirs _ hadir) hne]

end Plant

end Tree

end IshGo.Lib
