/-
# `IshGo.Vfs.Resolve` — guest names to host paths

`FS.Resolve` of `internal/vfs/fs.go`, with the two functions below it, `validate` and `clean`.
The host is a tree of `IshGo.Lib.FileTree`: `os.Lstat` and `os.Readlink` read it, and nothing
changes it while a name is resolved.
-/
import IshGo.Lib.FileTree

namespace IshGo.Vfs

open Lib Path List Tree

variable {cs : List Path} {host name : Path}
variable {f : FS} {gs parts : List Path} {guest : Path} {t : Tree}

/-- The errors of `Resolve`, with the names their texts print; `host` is an error of the host. -/
inductive ResolveError where
  | traversal (name : Path)
  | escapesRoot (name : Path)
  | symlinkEscapes (name : Path)
  | tooManyHops (name : Path)
  | host (e : Errno)
  deriving DecidableEq, Repr

def backslash : BitVec 8 := 0x5c

/-- `strings.ReplaceAll(name, "\\\\", "/")`: two backslashes become a slash. -/
def replaceBackslashes : Path → Path
  | b :: b' :: rest =>
    if b = backslash ∧ b' = backslash then slash :: replaceBackslashes rest
    else b :: replaceBackslashes (b' :: rest)
  | [b] => [b]
  | [] => []

def validate (name : Path) : Except ResolveError Unit :=
  if dotdot ∈ split (replaceBackslashes name) then .error (.traversal name) else .ok ()

/-- `strings.TrimPrefix(p, "/")` -/
def trimSlash : Path → Path
  | [] => []
  | b :: rest => if b = slash then rest else b :: rest

def clean (name : Path) : Path :=
  if name = [] then [slash] else slash :: trimSlash (Path.clean (slash :: name))

structure FS where
  root : Path

open FS

namespace FS

def resolveLexical (f : FS) (name : Path) : Except ResolveError Path :=
  match validate name with
  | .error e => .error e
  | .ok () =>
    let name := clean name
    let host := joinPath f.root (trimSlash name)
    match rel f.root host with
    | none => .error (.escapesRoot name)
    | some relCheck => if leavesUpward relCheck then .error (.escapesRoot name) else .ok host

/-- Where a link in the place of `candidate` leads the guest.  An absolute target is a guest's
name; if it is missing there and present on the host, it is refused. -/
def followTarget (f : FS) (t : Tree) (name candidate target : Path) : Except ResolveError Path :=
  if isAbs target then
    let guestTarget := clean target
    match f.resolveLexical guestTarget with
    | .error e => .error e
    | .ok guestHost =>
      match t.lstat guestHost with
      | .ok _ => .ok guestTarget
      | .error .noent =>
        match t.lstat (Path.clean target) with
        | .ok _ => .error (.symlinkEscapes name)
        | .error .noent => .ok guestTarget
        | .error e => .error (.host e)
      | .error e => .error (.host e)
  else .ok (joinPath (dir candidate) target)

/-- The inner loop of `Resolve`: a result, or the name to start again with. -/
def resolveParts (f : FS) (t : Tree) (name : Path) : Path → List Path → Except ResolveError Path ⊕ Path
  | resolved, [] => .inl (f.resolveLexical resolved)
  | resolved, part :: rest =>
    let candidate := joinPath resolved part
    match f.resolveLexical candidate with
    | .error e => .inl (.error e)
    | .ok host =>
      match t.lstat host with
      | .error .noent => .inl (f.resolveLexical (rest.foldl joinPath candidate))
      | .error e => .inl (.error (.host e))
      | .ok i =>
        if t.isLink i then
          match t.readlink host with
          | .error e => .inl (.error (.host e))
          | .ok target =>
            match f.followTarget t name candidate target with
            | .error e => .inl (.error e)
            | .ok resolved => .inr (clean (rest.foldl joinPath resolved))
        else f.resolveParts t name candidate rest

def resolvePass (f : FS) (t : Tree) (name guest : Path) : Except ResolveError Path ⊕ Path :=
  let parts := split (trimSlash guest)
  if parts = [[]] then .inl (.ok f.root) else f.resolveParts t name [slash] parts

def resolveLoop (f : FS) (t : Tree) (name : Path) : (hops : Nat) → Path → Except ResolveError Path
  | 0, _ => .error (.tooManyHops name)
  | hops + 1, guest =>
    match f.resolvePass t name guest with
    | .inl result => result
    | .inr guest => f.resolveLoop t name hops guest

def resolve (f : FS) (t : Tree) (name : Path) : Except ResolveError Path :=
  match validate name with
  | .error e => .error e
  | .ok () => f.resolveLoop t name 40 (clean name)

end FS

/-! ## The names of a guest's path -/

def guestNames (name : Path) : List Path := goOn [] (split name)

theorem names_guestNames (name : Path) : Path.Names (guestNames name) :=
  names_goOn names_nil (slash_not_mem_split name)

theorem trimSlash_absolute (cs : List Path) : trimSlash (absolute cs) = join cs := by
  rw [absolute, trimSlash, if_pos rfl]

theorem clean_eq (name : Path) : clean name = absolute (guestNames name) := by
  unfold clean
  by_cases hnil : name = []
  · rw [if_pos hnil, hnil]
    rfl
  · rw [if_neg hnil, clean_slash, trimSlash_absolute]
    rfl

theorem guestNames_absolute (h : Path.Names cs) :
    guestNames (absolute cs) = cs := elements_absolute h

theorem resolveParts_restart {resolved : Path}
    (h : f.resolveParts t name resolved parts = .inr guest) : ∃ gs, Path.Names gs ∧ guest = absolute gs := by
  induction parts generalizing resolved with
  | nil => cases h
  | cons part rest ih =>
    simp only [resolveParts] at h
    split at h
    · cases h
    split at h
    · cases h
    · cases h
    split at h
    · split at h
      · cases h
      split at h
      · cases h
      · cases h
        exact ⟨_, names_guestNames _, clean_eq _⟩
    · exact ih h

theorem resolvePass_restart {g : Path}
    (h : f.resolvePass t name g = .inr guest) : ∃ gs, Path.Names gs ∧ guest = absolute gs := by
  simp only [resolvePass] at h
  split at h
  · cases h
  · exact resolveParts_restart h

/-! ## What a resolved path is good for -/

/-- A host path on which no call leaves the directory `r` with the path `R`. -/
structure Confined (t : Tree) (R : List Path) (r : Nat) (h : Path) : Prop where
  below : ∃ cs, Path.Names cs ∧ h = absolute (R ++ cs) ∧
    (∀ pre suf, cs = pre ++ suf → pre ≠ [] → ∀ i, t.lstat (absolute (R ++ pre)) = .ok i →
      t.isLink i = false) ∧
    (cs ≠ [] → ∀ d, t.parent h = .ok d → t.Inside r d)
  follow : ∀ spot, t.find h = .ok spot → t.Holds r spot
  noFollow : ∀ i, t.lstat h = .ok i → t.Inside r i

/-- Names without links below the root spell such a path. -/
theorem confined_of_noLinks {R : List Path} (hR : Path.Names R) {r : Nat}
    (hroot : t.lstat (absolute R) = .ok r) (hdir : t.isDir r = true) (hc : Path.Names cs)
    (hl : t.NoLinks r cs) : Confined t R r (absolute (R ++ cs)) := by
  have hreach := reaches_of_lstat hR hroot hdir
  have hnames : ∀ {pre suf}, cs = pre ++ suf → Path.Names (R ++ pre) := by
    intro pre suf hcs
    exact names_append.mpr ⟨hR, (names_append.mp (hcs ▸ hc)).1⟩
  -- a path below the root ends with a name, and is looked up in a directory inside
  have hparent : ∀ {pre n}, cs = pre ++ [n] → ∀ d, t.parent (absolute (R ++ cs)) = .ok d →
      t.Leads r pre d := by
    intro pre n hcs d hp
    have h := hnames (hcs.trans (append_nil _).symm)
    rw [hcs] at hp hl
    rw [← append_assoc] at hp h
    exact parent_leads hreach h hl.left hp
  refine ⟨⟨cs, hc, rfl, ?_, ?_⟩, ?_, ?_⟩
  · intro pre suf hcs hne i hi
    have h := hnames hcs
    rw [hcs] at hl
    rcases pre.eq_nil_or_concat' with hnil | ⟨front, n, rfl⟩
    · exact absurd hnil hne
    · rw [← append_assoc] at hi h
      exact isLink_of_noLinks hreach h hl.left hi
  · intro hne d hp
    rcases cs.eq_nil_or_concat' with hnil | ⟨front, n, hcs⟩
    · exact absurd hnil hne
    · exact (hparent hcs d hp).inside .self
  · intro spot hf
    exact find_inside hreach (hnames (append_nil _).symm) hl hf
  intro i hi
  rcases cs.eq_nil_or_concat' with rfl | ⟨front, n, hcs⟩
  · rw [append_nil, hroot] at hi
    cases hi
    exact .self
  have h := hnames (hcs.trans (append_nil _).symm)
  rw [← append_assoc] at h
  rw [hcs, ← append_assoc] at hi
  obtain ⟨d, hp, he⟩ := lstat_ok h hi
  rw [append_assoc, ← hcs] at hp
  exact ((hparent hcs d hp).inside .self).entry n he

/-! ## One pass -/

section Pass

variable {t : Tree} {R : List Path} {r : Nat} (hR : Path.Names R)
include hR

/-- A name that is valid is put below the root; the check that it has not left the root never
fails. -/
theorem resolveLexical_eq (name : Path) :
    (mk (absolute R)).resolveLexical name =
      (validate name).map fun _ => absolute (R ++ guestNames name) := by
  have hnames := names_guestNames name
  unfold resolveLexical
  cases validate name with
  | error e => rfl
  | ok u =>
    simp only [clean_eq, trimSlash_absolute, joinPath_names hR hnames, rel_absolute hR hnames,
      leavesUpward_rel hnames]
    rfl

theorem resolveLexical_ok (h : (mk (absolute R)).resolveLexical name = .ok host) :
    host = absolute (R ++ guestNames name) := by
  rw [resolveLexical_eq hR] at h
  cases hv : validate name with
  | error e =>
    rw [hv] at h
    cases h
  | ok u =>
    rw [hv] at h
    exact (Except.ok.inj h).symm

theorem resolveLexical_absolute (hc : Path.Names cs)
    (h : (mk (absolute R)).resolveLexical (absolute cs) = .ok host) : host = absolute (R ++ cs) := by
  rw [resolveLexical_ok hR h, guestNames_absolute hc]

theorem resolveParts_ok (hreach : t.Reaches R r) (hparts : Path.Names parts)
    {ds : List Path} (hds : Path.Names ds) {e : Nat} (hl : t.Leads r ds e)
    (h : (mk (absolute R)).resolveParts t name (absolute ds) parts = .inl (.ok host)) :
    ∃ cs, Path.Names cs ∧ host = absolute (R ++ cs) ∧ t.NoLinks r cs := by
  induction parts generalizing ds e with
  | nil =>
    have hnone := hl.noLinks (show t.NoLinks e [] from trivial)
    rw [append_nil] at hnone
    exact ⟨ds, hds, resolveLexical_absolute hR hds (Sum.inl.inj h), hnone⟩
  | cons part rest ih =>
    obtain ⟨hpart, hrest⟩ := names_cons.mp hparts
    have hsnoc := names_append.mpr ⟨hds, names_singleton.mpr hpart⟩
    simp only [resolveParts, joinPath_name hds hpart] at h
    split at h
    · cases h
    rename_i candidateHost hlex
    have hcand := resolveLexical_absolute hR hsnoc hlex
    have hnames := names_append.mpr ⟨hR, hsnoc⟩
    rw [← append_assoc] at hcand hnames
    split at h
    · -- missing: so is everything after it
      rename_i hmissing
      rw [foldl_joinPath hsnoc hrest] at h
      have hnone : t.entry e part = none := entry_of_missing hreach hnames hl (hcand ▸ hmissing)
      refine ⟨ds ++ [part] ++ rest, names_append.mpr ⟨hsnoc, hrest⟩,
        resolveLexical_absolute hR (names_append.mpr ⟨hsnoc, hrest⟩) (Sum.inl.inj h), ?_⟩
      rw [append_assoc]
      exact hl.noLinks (noLinks_of_none hnone rest)
    · cases h
    rename_i i hi
    split at h
    · split at h
      · cases h
      · split at h
        · cases h
        · cases h
    · rename_i hlink
      have hentry : t.entry e part = some i := entry_of_lstat hreach hnames hl (hcand ▸ hi)
      exact ih hrest hsnoc (hl.snoc hentry (eq_false_of_ne_true hlink)) h

theorem resolvePass_ok (hreach : t.Reaches R r) (hgs : Path.Names gs)
    (h : (mk (absolute R)).resolvePass t name (absolute gs) = .inl (.ok host)) :
    ∃ cs, Path.Names cs ∧ host = absolute (R ++ cs) ∧ t.NoLinks r cs := by
  simp only [resolvePass, trimSlash_absolute] at h
  split at h
  · cases h
    exact ⟨[], names_nil, (congrArg _ (append_nil R)).symm, trivial⟩
  rename_i hparts
  have hne : gs ≠ [] := by
    rintro rfl
    exact hparts rfl
  rw [split_join hgs hne] at h
  exact resolveParts_ok hR hreach hgs names_nil (show t.Leads r [] r from rfl) h

theorem resolveLoop_ok (hreach : t.Reaches R r) {hops : Nat} (hgs : Path.Names gs)
    (h : (mk (absolute R)).resolveLoop t name hops (absolute gs) = .ok host) :
    ∃ cs, Path.Names cs ∧ host = absolute (R ++ cs) ∧ t.NoLinks r cs := by
  induction hops generalizing gs with
  | zero => cases h
  | succ hops ih =>
    simp only [resolveLoop] at h
    split at h
    · rename_i hpass
      exact resolvePass_ok hR hreach hgs (h ▸ hpass)
    · rename_i hpass
      obtain ⟨gs', hgs', rfl⟩ := resolvePass_restart hpass
      exact ih hgs' h

end Pass

/-! ## At most 40 passes -/

def FS.restarts (f : FS) (t : Tree) (name : Path) : Nat → Path → Option Path
  | 0, guest => some guest
  | n + 1, guest =>
    match f.resolvePass t name guest with
    | .inl _ => none
    | .inr guest => f.restarts t name n guest

theorem resolveLoop_restarts (f : FS) (t : Tree) (name : Path) (hops : Nat) (guest : Path) :
    ∃ n g, f.restarts t name n guest = some g ∧
      (n < hops ∧ f.resolvePass t name g = .inl (f.resolveLoop t name hops guest) ∨
        n = hops ∧ f.resolveLoop t name hops guest = .error (.tooManyHops name)) := by
  induction hops generalizing guest with
  | zero => exact ⟨0, guest, rfl, Or.inr ⟨rfl, rfl⟩⟩
  | succ hops ih =>
    cases hpass : f.resolvePass t name guest with
    | inl result =>
      refine ⟨0, guest, rfl, Or.inl ⟨Nat.succ_pos hops, ?_⟩⟩
      simp only [resolveLoop, hpass]
    | inr guest' =>
      obtain ⟨n, g, hg, hend⟩ := ih guest'
      refine ⟨n + 1, g, ?_, ?_⟩
      · simp only [restarts, hpass, hg]
      · simp only [resolveLoop, hpass]
        exact hend.imp (And.imp_left Nat.succ_lt_succ) (And.imp_left (congrArg Nat.succ))

/-- `Resolve` keeps inside the root, whatever links there are, and comes to an end. -/
theorem resolve_confined {t : Tree} {R : List Path} {r : Nat} (hR : Path.Names R)
    (hroot : t.lstat (absolute R) = .ok r) (hdir : t.isDir r = true) (name : Path) :
    let f : FS := ⟨absolute R⟩
    (∀ h, f.resolve t name = .ok h → Confined t R r h) ∧
    (f.resolve t name = .error (.traversal name) ∨
      ∃ n g, f.restarts t name n (clean name) = some g ∧
        (n < 40 ∧ f.resolvePass t name g = .inl (f.resolve t name) ∨
          n = 40 ∧ f.resolve t name = .error (.tooManyHops name))) := by
  intro f
  simp only [resolve]
  cases hv : validate name with
  | error e =>
    have he : e = .traversal name := by
      unfold validate at hv
      split at hv
      · cases hv
        rfl
      · cases hv
    refine ⟨?_, Or.inl (congrArg _ he)⟩
    intro h hh
    cases hh
  | ok u =>
    refine ⟨?_, Or.inr (resolveLoop_restarts f t name 40 (clean name))⟩
    intro h hh
    rw [clean_eq] at hh
    obtain ⟨cs, hcs, rfl, hl⟩ :=
      resolveLoop_ok hR (Tree.reaches_of_lstat hR hroot hdir) (names_guestNames name) hh
    exact confined_of_noLinks hR hroot hdir hcs hl

/-- In the directory `/r` the name `l` is a link to `/d`, and `d` is a directory. -/
def aliased : Tree :=
  { nodes :=
      { cell := fun
          | 0 => .dir [([0x72], 1)]
          | 1 => .dir [([0x6c], 2), ([0x64], 3)]
          | 2 => .link [0x2f, 0x64]
          | _ => .dir []
        next := 4 }
    log := [] }

/-- The guest's `/l/f` is the host's `/r/d/f`. -/
theorem resolve_confined_aliased :
    (mk (absolute [[0x72]])).resolve aliased [0x2f, 0x6c, 0x2f, 0x66] =
      .ok (absolute [[0x72], [0x64], [0x66]]) ∧
    Confined aliased [[0x72]] 1 (absolute [[0x72], [0x64], [0x66]]) := by
  have hR : Path.Names [[0x72]] :=
    names_singleton.mpr ⟨by decide, by decide, by decide, by decide⟩
  have hresolve : (mk (absolute [[0x72]])).resolve aliased [0x2f, 0x6c, 0x2f, 0x66] =
      .ok (absolute [[0x72], [0x64], [0x66]]) := by decide +kernel
  exact ⟨hresolve, (resolve_confined hR (by decide +kernel) (by decide +kernel) _).1 _ hresolve⟩

end IshGo.Vfs
