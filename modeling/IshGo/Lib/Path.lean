/-
# `IshGo.Lib.Path` — paths as strings with slashes

A path is a string of bytes.  `clean`, `joinPath`, `dir`, `isAbs` and `rel` are the functions
of that name in a standard path library, by what they do to the elements between the slashes:

    ""  and  "."   are dropped
    ".."           takes the element before it away; at the front of a rooted path it is
                   dropped, at the front of another path it stays
-/
import Mathlib.Data.List.Basic

namespace IshGo.Lib

open List

abbrev Path := List (BitVec 8)

variable {kept cs ds : List Path} {x c p : Path}

namespace Path

def slash : BitVec 8 := 0x2f

/-- `"."` -/
def dot : Path := [0x2e]

/-- `".."` -/
def dotdot : Path := [0x2e, 0x2e]

def isAbs (p : Path) : Bool := p.head? = some slash

def split (p : Path) : List Path := p.splitOn slash

def join (cs : List Path) : Path := [slash].intercalate cs

/-- An element, seen from the elements kept so far, the last of these first. -/
def push (rooted : Bool) (kept : List Path) (c : Path) : List Path :=
  if c = [] ∨ c = dot then kept
  else if c = dotdot then
    match kept with
    | [] => if rooted then [] else [dotdot]
    | k :: ks => if k = dotdot then dotdot :: k :: ks else ks
  else c :: kept

def elements (p : Path) : List Path := ((split p).foldl (push (isAbs p)) []).reverse

def clean (p : Path) : Path :=
  if isAbs p then slash :: join (elements p)
  else if elements p = [] then dot
  else join (elements p)

/-- Two elements with a slash between them, cleaned; empty ones do not count. -/
def joinPath (a b : Path) : Path :=
  if a = [] then if b = [] then [] else clean b else clean (a ++ slash :: b)

def dir (p : Path) : Path := clean (p.reverse.dropWhile (· ≠ slash)).reverse

def dropCommon : List Path → List Path → List Path × List Path
  | b :: bs, t :: ts => if b = t then dropCommon bs ts else (b :: bs, t :: ts)
  | bs, ts => (bs, ts)

/-- The way from one path to another, if it can be read off their texts. -/
def rel (base targ : Path) : Option Path :=
  if clean targ = clean base then some dot
  else if isAbs base ≠ isAbs targ then none
  else
    let r := dropCommon (elements base) (elements targ)
    if r.1.head? = some dotdot then none else some (join (replicate r.1.length dotdot ++ r.2))

def leavesUpward (p : Path) : Bool := p = dotdot || (dotdot ++ [slash]).isPrefixOf p

/-! ## Names -/

structure IsName (c : Path) : Prop where
  ne_nil : c ≠ []
  ne_dot : c ≠ dot
  ne_dotdot : c ≠ dotdot
  noSlash : slash ∉ c

abbrev Names (cs : List Path) : Prop := ∀ c ∈ cs, IsName c

theorem names_nil : Names [] := fun _ h => absurd h not_mem_nil

theorem names_append : Names (cs ++ ds) ↔ Names cs ∧ Names ds := forall_mem_append

theorem names_cons : Names (c :: cs) ↔ IsName c ∧ Names cs := forall_mem_cons

theorem names_singleton : Names [c] ↔ IsName c := forall_mem_singleton

def absolute (cs : List Path) : Path := slash :: join cs

/-- From one list of names along the elements of a path, never above the root. -/
def goOn (ds cs : List Path) : List Path := (cs.foldl (push true) ds.reverse).reverse

theorem goOn_nil (ds : List Path) : goOn ds [] = ds := reverse_reverse ds

theorem goOn_append (ds cs cs' : List Path) : goOn ds (cs ++ cs') = goOn (goOn ds cs) cs' := by
  unfold goOn
  rw [foldl_append, reverse_reverse]

theorem goOn_cons (ds : List Path) (c : Path) (cs : List Path) :
    goOn ds (c :: cs) = goOn (goOn ds [c]) cs := goOn_append ds [c] cs

theorem goOn_empty (ds : List Path) : goOn ds [[]] = ds := reverse_reverse ds

theorem goOn_name (ds : List Path) (h : IsName c) : goOn ds [c] = ds ++ [c] := by
  have hpush : push true ds.reverse c = c :: ds.reverse := by
    unfold push
    rw [if_neg (not_or.mpr ⟨h.ne_nil, h.ne_dot⟩), if_neg h.ne_dotdot]
  show (push true ds.reverse c).reverse = _
  rw [hpush, reverse_cons, reverse_reverse]

theorem goOn_names (ds : List Path) (h : Names cs) : goOn ds cs = ds ++ cs := by
  induction cs generalizing ds with
  | nil => rw [goOn_nil, append_nil]
  | cons c cs ih =>
    rw [goOn_cons, goOn_name ds (h c mem_cons_self),
      ih (ds ++ [c]) fun c' hc' => h c' (mem_cons_of_mem _ hc'), append_assoc]
    rfl

theorem names_goOn (hds : Names ds) (hcs : ∀ c ∈ cs, slash ∉ c) : Names (goOn ds cs) := by
  induction cs generalizing ds with
  | nil =>
    rw [goOn_nil]
    exact hds
  | cons c cs ih =>
    rw [goOn_cons]
    refine ih ?_ fun c' hc' => hcs c' (mem_cons_of_mem _ hc')
    intro c' hc'
    have hmem : c' ∈ push true ds.reverse c := mem_reverse.mp hc'
    unfold push at hmem
    split at hmem
    · exact hds c' (mem_reverse.mp hmem)
    rename_i hdot
    split at hmem
    · cases hrev : ds.reverse with
      | nil =>
        rw [hrev] at hmem
        exact absurd hmem not_mem_nil
      | cons k ks =>
        rw [hrev] at hmem
        have hk : Names (k :: ks) := by
          intro x hx
          exact hds x (mem_reverse.mp (hrev ▸ hx))
        dsimp only at hmem
        rw [if_neg (hk k mem_cons_self).ne_dotdot] at hmem
        exact hk c' (mem_cons_of_mem _ hmem)
    · rename_i hdotdot
      rcases mem_cons.mp hmem with rfl | hmem
      · exact ⟨(not_or.mp hdot).1, (not_or.mp hdot).2, hdotdot, hcs _ mem_cons_self⟩
      · exact hds c' (mem_reverse.mp hmem)

theorem mem_push (h : x ∈ push true kept c) : x ∈ kept ∨ x = c := by
  unfold push at h
  split at h
  · exact Or.inl h
  split at h
  · rename_i hc
    cases kept with
    | nil => exact absurd h not_mem_nil
    | cons k ks =>
      dsimp only at h
      split at h
      · exact hc ▸ (mem_cons.mp h).symm
      · exact Or.inl (mem_cons_of_mem k h)
  · exact (mem_cons.mp h).symm

theorem mem_goOn (h : x ∈ goOn ds cs) : x ∈ ds ∨ x ∈ cs := by
  induction cs generalizing ds with
  | nil => exact Or.inl (goOn_nil ds ▸ h)
  | cons c cs ih =>
    rw [goOn_cons] at h
    rcases ih h with hpush | hcs
    · rcases mem_push (mem_reverse.mp hpush) with hds | rfl
      · exact Or.inl (mem_reverse.mp hds)
      · exact Or.inr mem_cons_self
    · exact Or.inr (mem_cons_of_mem c hcs)

/-! ## Joining and splitting -/

theorem join_singleton (c : Path) : join [c] = c := intercalate_singleton

theorem join_cons_cons (c d : Path) (cs : List Path) :
    join (c :: d :: cs) = c ++ slash :: join (d :: cs) := by
  have h : join (c :: d :: cs) = c ++ [slash] ++ join (d :: cs) := intercalate_cons_cons
  rfl

theorem split_append_slash (a b : Path) : split (a ++ slash :: b) = split a ++ split b :=
  splitOnP_append_cons a b (beq_self_eq_true slash)

theorem split_slash (p : Path) : split (slash :: p) = [] :: split p := split_append_slash [] p

theorem split_nil : split [] = [[]] := rfl

theorem slash_not_mem_split (p : Path) : ∀ c ∈ split p, slash ∉ c := by
  induction p with
  | nil =>
    intro c hc
    rw [mem_singleton.mp hc]
    exact not_mem_nil
  | cons b p ih =>
    intro c hc
    unfold split at hc
    rw [splitOn_cons_eq_if_modifyHead] at hc
    split at hc
    · rcases mem_cons.mp hc with rfl | hc
      · exact not_mem_nil
      · exact ih c hc
    rename_i hb
    -- the byte goes to the front of the first element
    cases hs : p.splitOn slash with
    | nil =>
      rw [hs] at hc
      exact absurd hc not_mem_nil
    | cons k ks =>
      have hks : ∀ x ∈ k :: ks, slash ∉ x := by
        intro x hx
        exact ih x (show x ∈ p.splitOn slash from hs ▸ hx)
      rw [hs] at hc
      rcases mem_cons.mp hc with rfl | hc
      · intro hmem
        rcases mem_cons.mp hmem with hslash | hmem
        · exact hb (beq_iff_eq.mpr hslash.symm)
        · exact hks k mem_cons_self hmem
      · exact hks c (mem_cons_of_mem _ hc)

theorem split_join (h : Names cs) (hne : cs ≠ []) : split (join cs) = cs :=
  splitOn_intercalate slash (fun c hc => (h c hc).noSlash) hne

theorem goOn_split_join (ds : List Path) (h : Names cs) : goOn ds (split (join cs)) = ds ++ cs := by
  by_cases hne : cs = []
  · subst hne
    rw [append_nil]
    exact goOn_empty ds
  · rw [split_join h hne, goOn_names ds h]

/-! ## Rooted paths -/

theorem elements_slash (p : Path) : elements (slash :: p) = goOn [] (split p) := by
  show goOn [] (split (slash :: p)) = _
  rw [split_slash, goOn_cons, goOn_empty]

theorem clean_slash (p : Path) : clean (slash :: p) = absolute (goOn [] (split p)) := by
  rfl

theorem elements_absolute (h : Names cs) : elements (absolute cs) = cs := by
  rw [absolute, elements_slash, goOn_split_join [] h, nil_append]

theorem clean_absolute (h : Names cs) : clean (absolute cs) = absolute cs := by
  rw [absolute, clean_slash, goOn_split_join [] h, nil_append]
  rfl

theorem joinPath_absolute (h : Names ds) (p : Path) :
    joinPath (absolute ds) p = absolute (goOn ds (split p)) := by
  have hne : absolute ds ≠ [] := cons_ne_nil _ _
  rw [joinPath, if_neg hne, absolute, cons_append, clean_slash, split_append_slash, goOn_append,
    goOn_split_join [] h, nil_append]

theorem joinPath_names (hd : Names ds) (hc : Names cs) :
    joinPath (absolute ds) (join cs) = absolute (ds ++ cs) := by
  rw [joinPath_absolute hd, goOn_split_join ds hc]

theorem joinPath_name (hd : Names ds) (hc : IsName c) : joinPath (absolute ds) c = absolute (ds ++ [c]) := by
  rw [← joinPath_names hd (names_singleton.mpr hc), join_singleton]

theorem foldl_joinPath (hd : Names ds) (hc : Names cs) :
    cs.foldl joinPath (absolute ds) = absolute (ds ++ cs) := by
  induction cs generalizing ds with
  | nil => rw [append_nil]; rfl
  | cons c cs ih =>
    obtain ⟨hname, hcs⟩ := names_cons.mp hc
    have hsnoc := names_append.mpr ⟨hd, names_singleton.mpr hname⟩
    rw [foldl_cons, joinPath_name hd hname, ih hsnoc hcs, append_assoc]
    rfl

/-! ## The directory, and the way between two paths -/

theorem join_snoc (ds : List Path) (c : Path) :
    join (ds ++ [c]) = if ds = [] then c else join ds ++ slash :: c := by
  induction ds with
  | nil => exact join_singleton c
  | cons d ds ih =>
    rw [if_neg (cons_ne_nil d ds)]
    cases ds with
    | nil => rw [join_singleton, singleton_append, join_cons_cons, join_singleton]
    | cons d' ds =>
      rw [cons_append, cons_append, join_cons_cons, ← cons_append, ih, join_cons_cons, append_assoc]
      rfl

theorem absolute_snoc (ds : List Path) (c : Path) :
    absolute (ds ++ [c]) = (if ds = [] then [] else absolute ds) ++ slash :: c := by
  rw [absolute, join_snoc]
  split <;> rfl

theorem dir_absolute (hd : Names ds) (hc : IsName c) : dir (absolute (ds ++ [c])) = absolute ds := by
  have hslash : ∀ b ∈ c.reverse, decide (b ≠ slash) = true := by
    intro b hb
    refine decide_eq_true ?_
    rintro rfl
    exact hc.noSlash (mem_reverse.mp hb)
  have hdrop : ∀ pre : Path, ((pre ++ slash :: c).reverse.dropWhile (· ≠ slash)).reverse =
      pre ++ slash :: [] := by
    intro pre
    rw [reverse_append, reverse_cons, append_assoc,
      dropWhile_append_of_pos hslash, singleton_append, dropWhile_cons_of_neg (by simp),
      reverse_cons, reverse_reverse]
  rw [dir, absolute_snoc, hdrop]
  split
  · rename_i hnil
    rw [hnil]
    rfl
  have hjoin := joinPath_absolute hd []
  have hne : absolute ds ≠ [] := cons_ne_nil _ _
  rw [joinPath, if_neg hne] at hjoin
  rw [hjoin, split_nil, goOn_empty]

theorem dropCommon_append (bs cs : List Path) : dropCommon bs (bs ++ cs) = ([], cs) := by
  induction bs with
  | nil => cases cs <;> rfl
  | cons b bs ih => rw [cons_append, dropCommon, if_pos rfl, ih]

theorem absolute_injective {cs' : List Path} (h : Names cs) (h' : Names cs')
    (heq : absolute cs = absolute cs') : cs = cs' := by
  rw [← elements_absolute h, heq, elements_absolute h']

theorem rel_absolute {bs : List Path} (hb : Names bs) (hc : Names cs) :
    rel (absolute bs) (absolute (bs ++ cs)) = some (if cs = [] then dot else join cs) := by
  have hbc := names_append.mpr ⟨hb, hc⟩
  rw [rel, clean_absolute hb, clean_absolute hbc]
  by_cases hnil : cs = []
  · subst hnil
    rw [append_nil, if_pos rfl, if_pos rfl]
  have hne : absolute (bs ++ cs) ≠ absolute bs := by
    intro heq
    exact hnil (by simpa using absolute_injective hbc hb heq)
  have habs : ¬ isAbs (absolute bs) ≠ isAbs (absolute (bs ++ cs)) := not_not.mpr rfl
  rw [if_neg hne, if_neg habs, elements_absolute hb, elements_absolute hbc, dropCommon_append, if_neg hnil]
  rfl

theorem split_of_leavesUpward (h : leavesUpward p = true) : (split p).head? = some dotdot := by
  rcases Bool.or_eq_true_iff.mp h with h | h
  · rw [of_decide_eq_true h]
    rfl
  · obtain ⟨rest, rfl⟩ := isPrefixOf_iff_prefix.mp h
    rfl

/-- The way down does not go up. -/
theorem leavesUpward_rel (h : Names cs) : leavesUpward (if cs = [] then dot else join cs) = false := by
  by_cases hnil : cs = []
  · rw [if_pos hnil]
    decide
  rw [if_neg hnil]
  by_contra hup
  have hhead := split_of_leavesUpward (eq_true_of_ne_false hup)
  rw [split_join h hnil] at hhead
  exact (h dotdot (mem_of_head? hhead)).ne_dotdot rfl

end Path

end IshGo.Lib
