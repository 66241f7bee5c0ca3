/-
# `IshGo.Lib.FileTree` — a file system with symbolic and hard links

Objects are numbered; a directory maps names to numbers, so that two names can be one object.
The directory `0` is the root.
-/
import IshGo.Lib.Heap
import IshGo.Lib.Path

namespace IshGo.Lib

open Lib.Path List

variable {r : Nat} {trail : List Nat}
variable {R as : List Path} {f : Nat}

inductive Node where
  | dir (entries : List (Path × Nat))
  | file (content : List (BitVec 8))
  | link (target : Path)

def Node.entry : Node → Path → Option Nat
  | .dir entries, n => entries.lookup n
  | _, _ => none

def Node.isDir : Node → Bool
  | .dir _ => true
  | _ => false

def Node.isLink : Node → Bool
  | .link _ => true
  | _ => false

inductive Errno where
  | noent
  | notdir
  | loop
  | exist
  | perm
  | notempty
  | isdir
  | inval
  deriving DecidableEq, Repr

/-- Something done to an object: made, written with so many bytes, taken out of a directory, or put
into one under another name. -/
inductive Action where
  | make (dir : Nat) (name : Path) (object : Nat)
  | write (object count : Nat)
  | unlink (dir : Nat) (name : Path) (object : Nat)
  | link (dir : Nat) (name : Path) (object : Nat)

structure Tree where
  nodes : Heap Node
  log : List Action

/-- Where a path leads: to an object, or to a free name in a directory. -/
inductive Spot where
  | object (i : Nat)
  | vacant (dir : Nat) (name : Path)

inductive Stop where
  | object (trail : List Nat)
  | vacant (dir : Nat) (name : Path)
  | link (trail : List Nat) (target : Path) (rest : List Path)
  | failed (e : Errno)

variable {cs ds : List Path} {d e i links : Nat} {c n : Path} {spot : Spot}

namespace Tree

def node (t : Tree) (i : Nat) : Node := t.nodes.cell i

def entry (t : Tree) (d : Nat) (n : Path) : Option Nat := (t.node d).entry n

def isDir (t : Tree) (i : Nat) : Bool := (t.node i).isDir

def isLink (t : Tree) (i : Nat) : Bool := (t.node i).isLink

/-! ## Lookup -/

/-- Along the names, up to the first symbolic link.  `trail` has the directories passed, the
last one first. -/
def pass (t : Tree) : List Nat → List Path → Stop
  | trail, [] => .object trail
  | trail, c :: rest =>
    let d := trail.headD 0
    if t.isDir d = false then .failed .notdir
    else if c = [] ∨ c = dot then t.pass trail rest
    else if c = dotdot then t.pass (if trail.tail = [] then trail else trail.tail) rest
    else
      match t.entry d c with
      | none => if rest = [] then .vacant d c else .failed .noent
      | some i =>
        match t.node i with
        | .link target => .link trail target rest
        | _ => t.pass (i :: trail) rest

/-- `pass` after `pass`, with the target of each link in its place. -/
def walk (t : Tree) : (links : Nat) → List Nat → List Path → Except Errno Spot
  | links, trail, todo =>
    match t.pass trail todo with
    | .object trail => .ok (.object (trail.headD 0))
    | .vacant d n => .ok (.vacant d n)
    | .failed e => .error e
    | .link trail target rest =>
      match links with
      | 0 => .error .loop
      | links + 1 => t.walk links (if isAbs target then [0] else trail) (Path.split target ++ rest)

def maxLinks : Nat := 40

def find (t : Tree) (p : Path) : Except Errno Spot := t.walk maxLinks [0] (Path.split p)

def stat (t : Tree) (p : Path) : Except Errno Nat :=
  match t.find p with
  | .ok (.object i) => .ok i
  | .ok (.vacant ..) => .error .noent
  | .error e => .error e

def lastName (p : Path) : Option Path :=
  let n := (Path.split p).getLastD []
  if n = [] ∨ n = dot ∨ n = dotdot then none else some n

def parent (t : Tree) (p : Path) : Except Errno Nat :=
  match t.walk maxLinks [0] (Path.split p).dropLast with
  | .ok (.object d) => if t.isDir d then .ok d else .error .notdir
  | .ok (.vacant ..) => .error .noent
  | .error e => .error e

def lstat (t : Tree) (p : Path) : Except Errno Nat :=
  match lastName p with
  | none => t.stat p
  | some n =>
    match t.parent p with
    | .error e => .error e
    | .ok d =>
      match t.entry d n with
      | none => .error .noent
      | some i => .ok i

def readlink (t : Tree) (p : Path) : Except Errno Path :=
  match t.lstat p with
  | .error e => .error e
  | .ok i =>
    match t.node i with
    | .link target => .ok target
    | _ => .error .inval

/-! ## One name -/

variable {t : Tree}

theorem isDir_of_entry (h : t.entry d n = some i) : t.isDir d = true := by
  unfold entry at h
  unfold isDir
  cases hd : t.node d with
  | dir entries => rfl
  | file content =>
    rw [hd] at h
    exact absurd h (Option.some_ne_none i).symm
  | link target =>
    rw [hd] at h
    exact absurd h (Option.some_ne_none i).symm

theorem isLink_of_isDir (h : t.isDir i = true) : t.isLink i = false := by
  unfold isDir at h
  unfold isLink
  cases hi : t.node i with
  | dir entries => rfl
  | file content => rfl
  | link target =>
    rw [hi] at h
    exact absurd h Bool.false_ne_true

theorem pass_notDir (h : t.isDir (trail.headD 0) = false) (c : Path) (rest : List Path) :
    t.pass trail (c :: rest) = .failed .notdir := by
  rw [pass, if_pos h]

theorem pass_empty (h : t.isDir (trail.headD 0) = true) (rest : List Path) :
    t.pass trail ([] :: rest) = t.pass trail rest := by
  rw [pass, if_neg (ne_false_of_eq_true h), if_pos (Or.inl rfl)]

theorem pass_none (hc : IsName c) (h : t.isDir (trail.headD 0) = true)
    (he : t.entry (trail.headD 0) c = none) (rest : List Path) :
    t.pass trail (c :: rest) = if rest = [] then .vacant (trail.headD 0) c else .failed .noent := by
  rw [pass, if_neg (ne_false_of_eq_true h), if_neg (not_or.mpr ⟨hc.ne_nil, hc.ne_dot⟩),
    if_neg hc.ne_dotdot, he]

theorem pass_some (hc : IsName c) (he : t.entry (trail.headD 0) c = some i)
    (hl : t.isLink i = false) (rest : List Path) : t.pass trail (c :: rest) = t.pass (i :: trail) rest := by
  rw [pass, if_neg (ne_false_of_eq_true (isDir_of_entry he)),
    if_neg (not_or.mpr ⟨hc.ne_nil, hc.ne_dot⟩), if_neg hc.ne_dotdot, he]
  unfold isLink at hl
  dsimp only
  cases hi : t.node i with
  | dir entries => rfl
  | file content => rfl
  | link target =>
    rw [hi] at hl
    exact absurd hl.symm Bool.false_ne_true

/-! ## Names without links -/

def Leads (t : Tree) : Nat → List Path → Nat → Prop
  | d, [], e => d = e
  | d, c :: cs, e => ∃ i, t.entry d c = some i ∧ t.isLink i = false ∧ t.Leads i cs e

def NoLinks (t : Tree) : Nat → List Path → Prop
  | _, [] => True
  | d, c :: cs => ∀ i, t.entry d c = some i → t.isLink i = false ∧ t.NoLinks i cs

inductive Inside (t : Tree) (r : Nat) : Nat → Prop where
  | self : Inside t r r
  | entry {d i : Nat} (n : Path) : Inside t r d → t.entry d n = some i → Inside t r i

def Holds (t : Tree) (r : Nat) : Spot → Prop
  | .object i => t.Inside r i
  | .vacant d _ => t.Inside r d

theorem Leads.append (h : t.Leads d cs e) (h' : t.Leads e ds f) : t.Leads d (cs ++ ds) f := by
  induction cs generalizing d with
  | nil => exact h ▸ h'
  | cons c cs ih =>
    obtain ⟨i, he, hl, h⟩ := h
    exact ⟨i, he, hl, ih h⟩

theorem Leads.split (h : t.Leads d (cs ++ ds) f) : ∃ e, t.Leads d cs e ∧ t.Leads e ds f := by
  induction cs generalizing d with
  | nil => exact ⟨d, rfl, h⟩
  | cons c cs ih =>
    obtain ⟨i, he, hl, h⟩ := h
    obtain ⟨e, hfront, hback⟩ := ih h
    exact ⟨e, ⟨i, he, hl, hfront⟩, hback⟩

theorem Leads.snoc (h : t.Leads d cs e) (he : t.entry e c = some i) (hl : t.isLink i = false) :
    t.Leads d (cs ++ [c]) i := h.append ⟨i, he, hl, rfl⟩

theorem Leads.unique {e' : Nat} (h : t.Leads d cs e) (h' : t.Leads d cs e') : e = e' := by
  induction cs generalizing d with
  | nil => exact h.symm.trans h'
  | cons c cs ih =>
    obtain ⟨i, he, -, h⟩ := h
    obtain ⟨j, hj, -, h'⟩ := h'
    obtain rfl : i = j := Option.some.inj (he.symm.trans hj)
    exact ih h h'

theorem Leads.noLinks (h : t.Leads d cs e) (h' : t.NoLinks e ds) : t.NoLinks d (cs ++ ds) := by
  induction cs generalizing d with
  | nil => exact h ▸ h'
  | cons c cs ih =>
    obtain ⟨i, he, hl, h⟩ := h
    intro j hj
    obtain rfl : i = j := Option.some.inj (he.symm.trans hj)
    exact ⟨hl, ih h⟩

theorem NoLinks.rest (h : t.NoLinks d (cs ++ ds)) (hl : t.Leads d cs e) : t.NoLinks e ds := by
  induction cs generalizing d with
  | nil => exact hl ▸ h
  | cons c cs ih =>
    obtain ⟨i, he, -, hl⟩ := hl
    exact ih (h i he).2 hl

theorem noLinks_of_none (he : t.entry d c = none) (cs : List Path) : t.NoLinks d (c :: cs) := by
  intro i hi
  exact absurd (he.symm.trans hi) (Option.some_ne_none i).symm

theorem NoLinks.left (h : t.NoLinks d (cs ++ ds)) : t.NoLinks d cs := by
  induction cs generalizing d with
  | nil => trivial
  | cons c cs ih =>
    intro i hi
    exact ⟨(h i hi).1, ih (h i hi).2⟩

theorem pass_leads (hc : Names cs) (h : t.Leads d cs e) (hd : trail.headD 0 = d) :
    ∃ trail', trail'.headD 0 = e ∧ ∀ rest, t.pass trail (cs ++ rest) = t.pass trail' rest := by
  induction cs generalizing d trail with
  | nil => exact ⟨trail, hd.trans h, fun _ => rfl⟩
  | cons c cs ih =>
    obtain ⟨hname, hcs⟩ := names_cons.mp hc
    obtain ⟨i, he, hl, h⟩ := h
    obtain ⟨trail', he', hpass⟩ := ih hcs h (show (i :: trail).headD 0 = i from rfl)
    refine ⟨trail', he', fun rest => ?_⟩
    rw [cons_append, pass_some hname (hd ▸ he) hl, hpass]

theorem Leads.inside (h : t.Leads d cs e) (hr : t.Inside r d) : t.Inside r e := by
  induction cs generalizing d with
  | nil => exact h ▸ hr
  | cons c cs ih =>
    obtain ⟨i, he, -, h⟩ := h
    exact ih h (hr.entry c he)

theorem pass_noLinks (hc : Names cs) (hr : t.Inside r d) (h : t.NoLinks d cs)
    (hd : trail.headD 0 = d) :
    (∃ trail', t.pass trail cs = .object trail' ∧ t.Leads d cs (trail'.headD 0)) ∨
    (∃ e n, t.pass trail cs = .vacant e n ∧ t.Inside r e) ∨ ∃ e, t.pass trail cs = .failed e := by
  induction cs generalizing d trail with
  | nil => exact Or.inl ⟨trail, rfl, hd.symm⟩
  | cons c cs ih =>
    obtain ⟨hname, hcs⟩ := names_cons.mp hc
    subst hd
    cases hdir : t.isDir (trail.headD 0) with
    | false => exact Or.inr (Or.inr ⟨_, pass_notDir hdir c cs⟩)
    | true =>
      cases he : t.entry (trail.headD 0) c with
      | some i =>
        rw [pass_some hname he (h i he).1]
        rcases ih hcs (hr.entry c he) (h i he).2 (show (i :: trail).headD 0 = i from rfl) with
          ⟨trail', hp, hl⟩ | hrest
        · exact Or.inl ⟨trail', hp, i, he, (h i he).1, hl⟩
        · exact Or.inr hrest
      | none =>
        rw [pass_none hname hdir he]
        by_cases hnil : cs = []
        · rw [if_pos hnil]
          exact Or.inr (Or.inl ⟨_, _, rfl, hr⟩)
        · rw [if_neg hnil]
          exact Or.inr (Or.inr ⟨_, rfl⟩)

/-! ## Lookup in two parts -/

def goOn (t : Tree) (bs : List Path) : Stop → Stop
  | .object trail => t.pass trail bs
  | .vacant d n => if bs = [] then .vacant d n else .failed .noent
  | .link trail target rest => .link trail target (rest ++ bs)
  | .failed e => .failed e

theorem pass_append (trail : List Nat) (as bs : List Path) :
    t.pass trail (as ++ bs) = t.goOn bs (t.pass trail as) := by
  induction as generalizing trail with
  | nil => rfl
  | cons c as ih =>
    rw [cons_append, pass, pass]
    split
    · rfl
    split
    · exact ih trail
    split
    · exact ih _
    cases he : t.entry (trail.headD 0) c with
    | none =>
      by_cases has : as = []
      · rw [has]
        rfl
      · rw [if_neg (fun h => has (append_eq_nil_iff.mp h).1), if_neg has]
        rfl
    | some i =>
      dsimp only
      cases t.node i with
      | dir | file => exact ih (i :: trail)
      | link target => rfl

theorem walk_congr {trail' : List Nat} {bs : List Path}
    (h : t.pass trail as = t.pass trail' bs) (links : Nat) :
    t.walk links trail as = t.walk links trail' bs := by
  rw [walk, h, walk]

theorem walk_append
    (h : t.walk links trail as = .ok (.object r)) : ∃ links' trail', trail'.headD 0 = r ∧
      ∀ bs, t.walk links trail (as ++ bs) = t.walk links' trail' bs := by
  -- on the number of links; the link that a pass stops at is the one case that goes on
  induction links using Nat.strongRecOn generalizing trail as with
  | ind links ih =>
    rw [walk] at h
    cases hp : t.pass trail as with
    | object trail' =>
      rw [hp] at h
      cases h
      exact ⟨links, trail', rfl, fun bs => walk_congr (by rw [pass_append, hp]; rfl) links⟩
    | vacant | failed => rw [hp] at h; cases h
    | link trail' target rest =>
      rw [hp] at h
      cases links with
      | zero => cases h
      | succ links =>
        obtain ⟨links', trail'', hr, hgo⟩ := ih links (Nat.lt_succ_self links) h
        refine ⟨links', trail'', hr, fun bs => ?_⟩
        rw [walk, pass_append, hp, ← hgo, append_assoc]
        rfl

theorem walk_object (hc : Names cs) (h : t.NoLinks r cs)
    (hr : trail.headD 0 = r) (hw : t.walk links trail cs = .ok (.object e)) : t.Leads r cs e := by
  rw [walk] at hw
  rcases pass_noLinks hc .self h hr with ⟨trail', hp, hl⟩ | ⟨e', n, hp, -⟩ | ⟨e', hp⟩
  · rw [hp] at hw
    cases hw
    exact hl
  · rw [hp] at hw
    cases hw
  · rw [hp] at hw
    cases hw

/-- A lookup along names without links, from a directory on. -/
theorem walk_inside (hc : Names cs) (h : t.NoLinks r cs)
    (hr : trail.headD 0 = r) (hw : t.walk links trail cs = .ok spot) : t.Holds r spot := by
  cases spot with
  | object e => exact (walk_object hc h hr hw).inside .self
  | vacant e n =>
    rw [walk] at hw
    rcases pass_noLinks hc .self h hr with ⟨trail', hp, -⟩ | ⟨e', n', hp, hin⟩ | ⟨e', hp⟩
    · rw [hp] at hw
      cases hw
    · rw [hp] at hw
      cases hw
      exact hin
    · rw [hp] at hw
      cases hw

theorem walk_leads (hc : Names cs) (h : t.Leads r cs e)
    (hr : trail.headD 0 = r) (links : Nat) : t.walk links trail cs = .ok (.object e) := by
  obtain ⟨trail', he, hpass⟩ := pass_leads hc h hr
  have hp := hpass []
  rw [append_nil] at hp
  rw [walk, hp, ← he]
  rfl

/-! ## Below a directory with a known path -/

/-- The path with these names leads to the directory `r`, and a longer path goes on there. -/
def Reaches (t : Tree) (R : List Path) (r : Nat) : Prop :=
  ∃ links trail, trail.headD 0 = r ∧
    ∀ cs, t.walk maxLinks [0] ([] :: (R ++ cs)) = t.walk links trail cs

theorem split_absolute (h : Names cs) (hne : cs ≠ []) : Path.split (absolute cs) = [] :: cs := by
  rw [absolute, split_slash, split_join h hne]

theorem isDir_of_walk (h : t.walk links trail (c :: cs) = .ok spot) : t.isDir (trail.headD 0) = true := by
  by_contra hdir
  rw [walk, pass_notDir (eq_false_of_ne_true hdir)] at h
  cases h

theorem find_of_stat {p : Path} (h : t.stat p = .ok i) : t.find p = .ok (.object i) := by
  unfold stat at h
  split at h
  · rename_i hf
    cases h
    exact hf
  · cases h
  · cases h

theorem find_root (h0 : t.isDir 0 = true) : t.find (absolute []) = .ok (.object 0) := by
  have hpass : t.pass [0] (Path.split (absolute [])) = .object [0] := by
    rw [show Path.split (absolute []) = [[], []] from rfl, pass_empty h0, pass_empty h0, pass]
  rw [find, walk, hpass]
  rfl

theorem reaches_nil (h0 : t.isDir 0 = true) : t.Reaches [] 0 :=
  ⟨maxLinks, [0], rfl, fun cs => walk_congr (pass_empty h0 cs) maxLinks⟩

section
variable (h : Names (ds ++ [n]))
include h

theorem split_snoc : Path.split (absolute (ds ++ [n])) = ([] :: ds) ++ [n] :=
  split_absolute h (append_ne_nil_of_right_ne_nil _ (cons_ne_nil _ _))

theorem lastName_snoc : lastName (absolute (ds ++ [n])) = some n := by
  have hn := names_singleton.mp (names_append.mp h).2
  rw [lastName, split_snoc h, getLastD_concat,
    if_neg (not_or.mpr ⟨hn.ne_nil, not_or.mpr ⟨hn.ne_dot, hn.ne_dotdot⟩⟩)]

theorem parent_ok : t.parent (absolute (ds ++ [n])) = .ok d ↔
      t.walk maxLinks [0] ([] :: ds) = .ok (.object d) ∧ t.isDir d = true := by
  rw [parent, split_snoc h, dropLast_concat]
  constructor
  · intro hp
    split at hp
    · rename_i e hw
      split at hp
      · rename_i hdir
        cases hp
        exact ⟨hw, hdir⟩
      · cases hp
    · cases hp
    · cases hp
  · rintro ⟨hw, hdir⟩
    rw [hw]
    exact if_pos hdir

theorem lstat_ok (hi : t.lstat (absolute (ds ++ [n])) = .ok i) :
    ∃ d, t.parent (absolute (ds ++ [n])) = .ok d ∧ t.entry d n = some i := by
  rw [lstat, lastName_snoc h] at hi
  dsimp only at hi
  split at hi
  · cases hi
  rename_i d hp
  split at hi
  · cases hi
  · rename_i j he
    cases hi
    exact ⟨d, hp, he⟩

end

/-- A real directory: not a link at the end of its path either. -/
theorem reaches_of_lstat (hR : Names R) (h : t.lstat (absolute R) = .ok r)
    (hr : t.isDir r = true) : t.Reaches R r := by
  rcases R.eq_nil_or_concat' with rfl | ⟨ds, n, rfl⟩
  · have hfind : t.find (absolute []) = .ok (.object r) := find_of_stat h
    have h0 : t.isDir 0 = true := isDir_of_walk hfind
    rw [find_root h0] at hfind
    cases hfind
    exact reaches_nil h0
  obtain ⟨d, hp, he⟩ := lstat_ok hR h
  obtain ⟨links, trail, hd, hwalk⟩ := walk_append ((parent_ok hR).mp hp).1
  have hn := names_singleton.mp (names_append.mp hR).2
  refine ⟨links, r :: trail, rfl, fun cs => ?_⟩
  rw [append_assoc, ← cons_append, hwalk]
  exact walk_congr (pass_some hn (hd ▸ he) (isLink_of_isDir hr) cs) links

section Below

variable {R : List Path} {r : Nat} (hroot : t.Reaches R r)
include hroot

/-- The directory of a path without links above its last name. -/
theorem parent_leads (h : Names (R ++ cs ++ [n])) (hl : t.NoLinks r cs)
    (hp : t.parent (absolute (R ++ cs ++ [n])) = .ok d) : t.Leads r cs d := by
  obtain ⟨links, trail, hr, hwalk⟩ := hroot
  have hw := ((parent_ok h).mp hp).1
  rw [hwalk] at hw
  exact walk_object (names_append.mp (names_append.mp h).1).2 hl hr hw

theorem walk_of_find (h : Names (R ++ cs)) (hf : t.find (absolute (R ++ cs)) = .ok spot) :
    ∃ links trail, trail.headD 0 = r ∧ t.walk links trail cs = .ok spot := by
  obtain ⟨links, trail, hr, hwalk⟩ := hroot
  unfold find at hf
  by_cases hnil : R ++ cs = []
  · -- the text of no names is a slash
    obtain ⟨rfl, rfl⟩ := append_eq_nil_iff.mp hnil
    rw [show Path.split (absolute ([] ++ [])) = [] :: ([] ++ [[]]) from rfl, hwalk] at hf
    rw [walk_congr (pass_empty (isDir_of_walk hf) [])] at hf
    exact ⟨links, trail, hr, hf⟩
  · rw [split_absolute h hnil, hwalk] at hf
    exact ⟨links, trail, hr, hf⟩

theorem find_inside (h : Names (R ++ cs)) (hl : t.NoLinks r cs)
    (hf : t.find (absolute (R ++ cs)) = .ok spot) : t.Holds r spot := by
  obtain ⟨links, trail, hr, hw⟩ := walk_of_find hroot h hf
  exact walk_inside (names_append.mp h).2 hl hr hw

theorem leads_of_stat (h : Names (R ++ cs)) (hl : t.NoLinks r cs)
    (hd : t.stat (absolute (R ++ cs)) = .ok d) : t.Leads r cs d := by
  obtain ⟨links, trail, hr, hw⟩ := walk_of_find hroot h (find_of_stat hd)
  exact walk_object (names_append.mp h).2 hl hr hw

theorem stat_of_leads (h : Names (R ++ cs)) (hl : t.Leads r cs d) (hd : t.isDir d = true) :
    t.stat (absolute (R ++ cs)) = .ok d := by
  obtain ⟨links, trail, hr, hwalk⟩ := hroot
  have hcs := (names_append.mp h).2
  have hfind : t.find (absolute (R ++ cs)) = .ok (.object d) := by
    unfold find
    by_cases hnil : R ++ cs = []
    · obtain ⟨rfl, rfl⟩ := append_eq_nil_iff.mp hnil
      have hdir : t.isDir (trail.headD 0) = true := by
        rw [hr, show r = d from hl]
        exact hd
      rw [show Path.split (absolute ([] ++ [])) = [] :: ([] ++ [[]]) from rfl, hwalk,
        walk_congr (pass_empty hdir [])]
      exact walk_leads hcs hl hr links
    · rw [split_absolute h hnil, hwalk]
      exact walk_leads hcs hl hr links
  rw [stat, hfind]

section
variable (h : Names (R ++ cs ++ [n]))
include h

theorem parent_of_leads (hl : t.Leads r cs d) (hd : t.isDir d = true) :
    t.parent (absolute (R ++ cs ++ [n])) = .ok d := by
  obtain ⟨links, trail, hr, hwalk⟩ := hroot
  refine (parent_ok h).mpr ⟨?_, hd⟩
  rw [hwalk]
  exact walk_leads (names_append.mp (names_append.mp h).1).2 hl hr links

/-- No existing prefix of a path without links is a link. -/
theorem isLink_of_noLinks (hl : t.NoLinks r (cs ++ [n]))
    (hi : t.lstat (absolute (R ++ cs ++ [n])) = .ok i) : t.isLink i = false := by
  obtain ⟨d, hp, he⟩ := lstat_ok h hi
  exact (hl.rest (parent_leads hroot h hl.left hp) i he).1

theorem lstat_snoc (hl : t.Leads r cs e) :
    t.lstat (absolute (R ++ cs ++ [n])) =
      if t.isDir e then
        match t.entry e n with
        | none => .error .noent
        | some i => .ok i
      else .error .notdir := by
  obtain ⟨links, trail, hr, hwalk⟩ := hroot
  have hcs := (names_append.mp (names_append.mp h).1).2
  rw [lstat, lastName_snoc h, parent, split_snoc h, dropLast_concat, hwalk, walk_leads hcs hl hr]
  dsimp only
  by_cases hdir : t.isDir e = true
  · rw [if_pos hdir, if_pos hdir]
  · rw [if_neg hdir, if_neg hdir]

theorem entry_of_lstat (hl : t.Leads r cs e)
    (hi : t.lstat (absolute (R ++ cs ++ [n])) = .ok i) : t.entry e n = some i := by
  rw [lstat_snoc hroot h hl] at hi
  split at hi
  · split at hi
    · cases hi
    · rename_i he
      cases hi
      exact he
  · cases hi

theorem entry_of_missing (hl : t.Leads r cs e)
    (hi : t.lstat (absolute (R ++ cs ++ [n])) = .error .noent) : t.entry e n = none := by
  rw [lstat_snoc hroot h hl] at hi
  split at hi
  · split at hi
    · rename_i he
      exact he
    · cases hi
  · cases hi

end

end Below

end Tree

end IshGo.Lib
