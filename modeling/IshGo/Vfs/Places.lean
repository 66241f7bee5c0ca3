/-
# `IshGo.Vfs.Places` — the directory and the last name of a guest's path

A guest's name has a last element, and `Resolve` finds a directory for the elements before it.
Together they are the `Place` that the name stands for, an entry of that directory, whether there is
one or not.
-/
import IshGo.Lib.FileMove
import IshGo.Vfs.Resolve

namespace IshGo.Vfs

open Lib Path Tree List

variable {cs gs : List Path} {d : Nat} {host n name : Path}
variable {ds : List Path} {e : Nat}

/-- The guest's name ends with `n`, and the elements before it lead to the directory `d`. -/
def FS.Place (f : FS) (t : Tree) (name : Path) (d : Nat) (n : Path) : Prop :=
  ∃ gs host, guestNames name = gs ++ [n] ∧ f.resolve t (absolute gs) = .ok host ∧
    t.stat host = .ok d ∧ t.isDir d = true

open FS

/-! ## Valid names -/

theorem replaceBackslashes_slash (a b : Path) :
    replaceBackslashes (a ++ slash :: b) =
      replaceBackslashes a ++ slash :: replaceBackslashes b := by
  induction a using replaceBackslashes.induct with
  | case1 c c' rest hc ih =>
    rw [cons_append, cons_append, replaceBackslashes, if_pos hc, replaceBackslashes, if_pos hc, ih]
    rfl
  | case2 c c' rest hc ih =>
    rw [cons_append, cons_append, replaceBackslashes, if_neg hc, replaceBackslashes,
      if_neg hc, ← cons_append, ih]
    rfl
  | case3 c =>
    have hc : ¬ (c = backslash ∧ slash = backslash) := fun h => absurd h.2 (by decide)
    have hb : ∀ d, ¬ (slash = backslash ∧ d = backslash) := fun _ h => absurd h.1 (by decide)
    rw [singleton_append, replaceBackslashes, if_neg hc]
    cases b with
    | nil => rfl
    | cons d ds =>
      rfl
  | case4 =>
    have hb : ∀ d, ¬ (slash = backslash ∧ d = backslash) := fun _ h => absurd h.1 (by decide)
    cases b with
    | nil => rfl
    | cons d ds =>
      rfl

/-- An element that `validate` lets pass. -/
def Valid (c : Path) : Prop := dotdot ∉ split (replaceBackslashes c)

theorem valid_join (hne : cs ≠ []) : Valid (join cs) ↔ ∀ c ∈ cs, Valid c := by
  induction cs with
  | nil => exact absurd rfl hne
  | cons c cs ih =>
    cases cs with
    | nil => rw [join_singleton, forall_mem_singleton]
    | cons c' cs =>
      have hrest := ih (cons_ne_nil c' cs)
      rw [forall_mem_cons, ← hrest]
      unfold Valid
      rw [join_cons_cons, replaceBackslashes_slash, split_append_slash, mem_append, not_or]

theorem valid_iff (name : Path) : Valid name ↔ ∀ c ∈ split name, Valid c := by
  have hjoin : join (split name) = name := intercalate_splitOn slash
  have hne : split name ≠ [] := splitOn_ne_nil slash name
  rw [← valid_join hne, hjoin]

theorem validate_ok_iff (name : Path) : validate name = .ok () ↔ Valid name := by
  unfold validate Valid
  split
  · rename_i h
    refine ⟨fun h' => ?_, fun h' => absurd h h'⟩
    cases h'
  · rename_i h
    exact ⟨fun _ => h, fun _ => rfl⟩

theorem valid_absolute : Valid (absolute cs) ↔ ∀ c ∈ cs, Valid c := by
  have hslash := replaceBackslashes_slash [] (join cs)
  rw [nil_append] at hslash
  cases cs with
  | nil => exact ⟨fun _ c hc => absurd hc not_mem_nil, fun _ => by unfold Valid; decide⟩
  | cons c cs =>
    rw [← valid_join (cons_ne_nil c cs)]
    unfold Valid absolute
    rw [hslash, replaceBackslashes, nil_append, split_slash, mem_cons, not_or]
    exact ⟨And.right, fun h => ⟨by decide, h⟩⟩

theorem valid_guestNames (h : Valid name) : ∀ c ∈ guestNames name, Valid c := by
  intro c hc
  rcases mem_goOn hc with hnil | hsplit
  · exact absurd hnil not_mem_nil
  · exact (valid_iff name).mp h c hsplit

/-! ## One name more -/

/-- What becomes of a pass: its result, or that of the passes that are left. -/
def FS.finish (f : FS) (t : Tree) (name : Path) (hops : Nat) : Except ResolveError Path ⊕ Path → Except ResolveError Path
  | .inl result => result
  | .inr guest => f.resolveLoop t name hops guest

theorem resolveLoop_succ (f : FS) (t : Tree) (name : Path) (hops : Nat) (guest : Path) :
    f.resolveLoop t name (hops + 1) guest = f.finish t name hops (f.resolvePass t name guest) := by
  rw [resolveLoop]
  cases f.resolvePass t name guest <;> rfl

/-- Two passes below the directory `r`, the second of them with the name `n` at the end. -/
inductive Further (f : FS) (t : Tree) (r : Nat) (name n : Path) :
    Except ResolveError Path ⊕ Path → Except ResolveError Path ⊕ Path → Prop where
  | again {gs : List Path} (names : Path.Names gs) :
      Further f t r name n (.inr (absolute gs)) (.inr (absolute (gs ++ [n])))
  | found {cs : List Path} {d : Nat} (names : Path.Names cs) (leads : t.Leads r cs d) :
      Further f t r name n (.inl (f.resolveLexical (absolute cs)))
        (f.resolveParts t name (absolute cs) [n])
  | missing {cs : List Path} (names : Path.Names cs) (noLinks : t.NoLinks r cs)
      (nothing : ∀ d, ¬ t.Leads r cs d) :
      Further f t r name n (.inl (f.resolveLexical (absolute cs)))
        (.inl (f.resolveLexical (absolute (cs ++ [n]))))
  | failed (e e' : ResolveError) : Further f t r name n (.inl (.error e)) (.inl (.error e'))

theorem followTarget_name (f : FS) (t : Tree) (hds : Path.Names ds) {part : Path}
    (hpart : Path.IsName part) (name name' target : Path) :
    (∃ gs, Path.Names gs ∧
      f.followTarget t name (absolute (ds ++ [part])) target = .ok (absolute gs) ∧
      f.followTarget t name' (absolute (ds ++ [part])) target = .ok (absolute gs)) ∨
    ∃ e e', f.followTarget t name (absolute (ds ++ [part])) target = .error e ∧
      f.followTarget t name' (absolute (ds ++ [part])) target = .error e' := by
  unfold followTarget
  by_cases habs : isAbs target = true
  · rw [if_pos habs, if_pos habs, clean_eq]
    have hgs := names_guestNames target
    dsimp only
    cases f.resolveLexical (absolute (guestNames target)) with
    | error e => exact Or.inr ⟨e, e, rfl, rfl⟩
    | ok guestHost =>
      dsimp only
      cases t.lstat guestHost with
      | ok i => exact Or.inl ⟨_, hgs, rfl, rfl⟩
      | error e =>
        by_cases he : e = .noent
        · subst he
          cases t.lstat (Path.clean target) with
          | ok i => exact Or.inr ⟨_, _, rfl, rfl⟩
          | error e =>
            cases e with
            | noent => exact Or.inl ⟨_, hgs, rfl, rfl⟩
            | _ => exact Or.inr ⟨_, _, rfl, rfl⟩
        · cases e with
          | noent => exact absurd rfl he
          | _ => exact Or.inr ⟨_, _, rfl, rfl⟩
  · rw [if_neg habs, if_neg habs, dir_absolute hds hpart, joinPath_absolute hds]
    exact Or.inl ⟨_, names_goOn hds (slash_not_mem_split target), rfl, rfl⟩

section Further

variable {t : Tree} {R : List Path} {r : Nat} (hR : Path.Names R) (hreach : t.Reaches R r)
include hR hreach

theorem further_resolveParts (name name' : Path) (hn : Path.IsName n) {qs : List Path}
    (hqs : Path.Names qs) (hds : Path.Names ds) (hl : t.Leads r ds e) :
    Further ⟨absolute R⟩ t r name' n
      ((mk (absolute R)).resolveParts t name (absolute ds) qs)
      ((mk (absolute R)).resolveParts t name' (absolute ds) (qs ++ [n])) := by
  induction qs generalizing ds e with
  | nil => exact .found hds hl
  | cons part rest ih =>
    obtain ⟨hpart, hrest⟩ := names_cons.mp hqs
    have hsnoc := names_append.mpr ⟨hds, names_singleton.mpr hpart⟩
    have hmore := names_append.mpr ⟨hrest, names_singleton.mpr hn⟩
    rw [cons_append, resolveParts, resolveParts, joinPath_name hds hpart]
    cases hlex : (mk (absolute R)).resolveLexical (absolute (ds ++ [part])) with
    | error er => exact .failed er er
    | ok host =>
      have hhost := resolveLexical_absolute hR hsnoc hlex
      have hnames := names_append.mpr ⟨hR, hsnoc⟩
      rw [← append_assoc] at hhost hnames
      dsimp only
      cases hstat : t.lstat host with
      | error er =>
        by_cases her : er = .noent
        · subst her
          have hnone : t.entry e part = none :=
            entry_of_missing hreach hnames hl (hhost ▸ hstat)
          rw [foldl_joinPath hsnoc hrest, foldl_joinPath hsnoc hmore, ← append_assoc]
          refine .missing (names_append.mpr ⟨hsnoc, hrest⟩) ?_ ?_
          · rw [append_assoc]
            exact hl.noLinks (noLinks_of_none hnone rest)
          intro d hd
          rw [append_assoc] at hd
          obtain ⟨e', he', i, hi, -⟩ := hd.split
          rw [hl.unique he', hi] at hnone
          cases hnone
        · cases er with
          | noent => exact absurd rfl her
          | _ => exact .failed _ _
      | ok i =>
        dsimp only
        by_cases hlink : t.isLink i = true
        · rw [if_pos hlink, if_pos hlink]
          cases t.readlink host with
          | error er => exact .failed _ _
          | ok target =>
            dsimp only
            rcases followTarget_name (mk (absolute R)) t hds hpart name name' target with
              ⟨gs, hgs, h, h'⟩ | ⟨er, er', h, h'⟩
            · rw [h, h']
              dsimp only
              rw [foldl_joinPath hgs hrest, foldl_joinPath hgs hmore, ← append_assoc, clean_eq, clean_eq]
              have hnext := names_append.mpr ⟨hgs, hrest⟩
              rw [guestNames_absolute hnext, guestNames_absolute
                (names_append.mpr ⟨hnext, names_singleton.mpr hn⟩)]
              exact .again hnext
            · rw [h, h']
              exact .failed er er'
        · rw [if_neg hlink, if_neg hlink]
          have hentry : t.entry e part = some i := entry_of_lstat hreach hnames hl (hhost ▸ hstat)
          exact ih hrest hsnoc (hl.snoc hentry (eq_false_of_ne_true hlink))

theorem further_resolvePass (name name' : Path) (hn : Path.IsName n) (hgs : Path.Names gs) :
    Further ⟨absolute R⟩ t r name' n
      ((mk (absolute R)).resolvePass t name (absolute gs))
      ((mk (absolute R)).resolvePass t name' (absolute (gs ++ [n]))) := by
  have hmore := names_append.mpr ⟨hgs, names_singleton.mpr hn⟩
  have hne : gs ++ [n] ≠ [] := append_ne_nil_of_right_ne_nil _ (cons_ne_nil _ _)
  have hsplit : ∀ {cs : List Path}, Path.Names cs → cs ≠ [] →
      ∀ name, (mk (absolute R)).resolvePass t name (absolute cs) =
        (mk (absolute R)).resolveParts t name [slash] cs := by
    intro cs hcs hcs0 name
    have hempty : cs ≠ [[]] := by
      rintro rfl
      exact (hcs [] mem_cons_self).ne_nil rfl
    rw [resolvePass, trimSlash_absolute, split_join hcs hcs0]
    exact if_neg hempty
  rw [hsplit hmore hne]
  by_cases hnil : gs = []
  · subst hnil
    have hroot : (mk (absolute R)).resolvePass t name (absolute []) =
        .inl ((mk (absolute R)).resolveLexical (absolute [])) := by
      rw [resolveLexical_eq hR, (validate_ok_iff _).mpr (valid_absolute.mpr fun c hc => absurd hc not_mem_nil),
        guestNames_absolute names_nil, append_nil]
      rfl
    rw [hroot]
    exact .found names_nil (show t.Leads r [] r from rfl)
  · rw [hsplit hgs hnil]
    exact further_resolveParts hR hreach name name' hn hgs names_nil (show t.Leads r [] r from rfl)

/-- The loops of both: the last name is looked up in a directory that is there, or in none. -/
theorem further_resolveLoop (name name' : Path) (hn : Path.IsName n) (hops : Nat)
    (hgs : Path.Names gs) : let f : FS := ⟨absolute R⟩
    ∃ left a b, Further f t r name' n (.inl a) b ∧ f.resolveLoop t name hops (absolute gs) = a ∧
      f.resolveLoop t name' hops (absolute (gs ++ [n])) = f.finish t name' left b := by
  intro f
  induction hops generalizing gs with
  | zero => exact ⟨0, _, _, .failed (.tooManyHops name) (.tooManyHops name'), rfl, rfl⟩
  | succ hops ih =>
    have hpass := further_resolvePass hR hreach name name' hn hgs
    rw [resolveLoop_succ, resolveLoop_succ]
    generalize f.resolvePass t name (absolute gs) = a at hpass
    generalize f.resolvePass t name' (absolute (gs ++ [n])) = b at hpass
    cases a with
    | inl a => exact ⟨hops, a, b, hpass, rfl, rfl⟩
    | inr guest =>
      cases hpass with
      | again names => exact ih names

end Further

/-! ## The place, and the path that is found -/

theorem resolve_ok {f : FS} {t : Tree} (h : f.resolve t name = .ok host) :
    Valid name ∧ f.resolveLoop t name 40 (absolute (guestNames name)) = .ok host := by
  unfold resolve at h
  split at h
  · cases h
  · rename_i hv
    exact ⟨(validate_ok_iff name).mp hv, clean_eq name ▸ h⟩

theorem resolve_absolute (f : FS) (t : Tree) (hgs : Path.Names gs) (hv : ∀ c ∈ gs, Valid c) :
    f.resolve t (absolute gs) = f.resolveLoop t (absolute gs) 40 (absolute gs) := by
  unfold resolve
  rw [(validate_ok_iff _).mpr (valid_absolute.mpr hv), clean_eq, guestNames_absolute hgs]

section Places

variable {t : Tree} {R : List Path} {r : Nat} (hR : Path.Names R) (hreach : t.Reaches R r)
include hR

theorem resolveLexical_valid (hc : Path.Names cs) (hv : ∀ c ∈ cs, Valid c) :
    (mk (absolute R)).resolveLexical (absolute cs) = .ok (absolute (R ++ cs)) := by
  rw [resolveLexical_eq hR, (validate_ok_iff _).mpr (valid_absolute.mpr hv), guestNames_absolute hc]
  rfl

theorem valid_of_resolveLexical
    (h : (mk (absolute R)).resolveLexical (absolute cs) = .ok host) : ∀ c ∈ cs, Valid c := by
  refine valid_absolute.mp ((validate_ok_iff _).mp ?_)
  rw [resolveLexical_eq hR] at h
  cases hv : validate (absolute cs) with
  | error e =>
    rw [hv] at h
    cases h
  | ok u => rfl

include hreach

/-- A last name is looked up in a directory only; if it is not a link, it is what is found. -/
theorem resolveParts_last (hc : Path.Names cs) (hl : t.Leads r cs d) (hn : Path.IsName n) {left : Nat}
    (h : (mk (absolute R)).finish t name left ((mk (absolute R)).resolveParts t name (absolute cs) [n]) = .ok host) :
    ((∀ c ∈ cs, Valid c) ∧ t.isDir d = true) ∧
      ((∀ i, t.entry d n = some i → t.isLink i = false) → host = absolute (R ++ cs ++ [n])) := by
  have hsnoc := names_append.mpr ⟨hc, names_singleton.mpr hn⟩
  have hnames := names_append.mpr ⟨hR, hsnoc⟩
  rw [resolveParts, joinPath_name hc hn] at h
  cases hlex : (mk (absolute R)).resolveLexical (absolute (cs ++ [n])) with
  | error e =>
    rw [hlex] at h
    cases h
  | ok candidate =>
    have hcand := resolveLexical_absolute hR hsnoc hlex
    rw [← append_assoc] at hcand hnames
    rw [hlex] at h
    dsimp only at h
    refine ⟨⟨(forall_mem_append.mp (valid_of_resolveLexical hR hlex)).1, ?_⟩, fun hlink => ?_⟩
    · by_contra hdir
      rw [hcand, lstat_snoc hreach hnames hl, if_neg hdir] at h
      cases h
    cases hstat : t.lstat candidate with
    | error e =>
      rw [hstat] at h
      cases e with
      | noent => exact (Except.ok.inj (hlex.symm.trans h)).symm.trans hcand
      | _ => cases h
    | ok i =>
      have hentry := entry_of_lstat hreach hnames hl (hcand ▸ hstat)
      rw [hstat] at h
      dsimp only at h
      rw [hlink i hentry, if_neg Bool.false_ne_true] at h
      exact (Except.ok.inj (hlex.symm.trans h)).symm.trans hcand

theorem Place.endsAt (hp : (mk (absolute R)).Place t name d n)
    (hlink : ∀ i, t.entry d n = some i → t.isLink i = false)
    (h : (mk (absolute R)).resolve t name = .ok host) : t.EndsAt host d n := by
  obtain ⟨gs, above, hguest, habove, hstat, hdir⟩ := hp
  have hnames : Path.Names (gs ++ [n]) := hguest ▸ names_guestNames name
  obtain ⟨hgs, hn⟩ := names_append.mp hnames
  have hn := names_singleton.mp hn
  have hloop := (resolve_ok h).2
  have hup := (resolve_ok habove).2
  rw [hguest] at hloop
  rw [guestNames_absolute hgs] at hup
  obtain ⟨left, a, b, hfurther, ha, hb⟩ :=
    further_resolveLoop hR hreach (absolute gs) name hn 40 hgs
  rw [hup] at ha
  rw [hloop] at hb
  subst ha
  generalize hx : (Sum.inl (.ok above) : Except ResolveError Path ⊕ Path) = x at hfurther
  cases hfurther with
  | again names => cases hx
  | failed e e' => cases hx
  | @found cs d' names leads =>
    have habs := resolveLexical_absolute hR names (Sum.inl.inj hx).symm
    have hbelow := names_append.mpr ⟨hR, names⟩
    have hnone := leads.noLinks (show t.NoLinks d' [] from trivial)
    rw [append_nil] at hnone
    rw [habs] at hstat
    have hd : d' = d := leads.unique (leads_of_stat hreach hbelow hnone hstat)
    subst hd
    obtain rfl := (resolveParts_last hR hreach names leads hn hb.symm).2 hlink
    have hall := names_append.mpr ⟨hbelow, names_singleton.mpr hn⟩
    exact ⟨lastName_snoc hall, parent_of_leads hreach hall leads hdir⟩
  | missing names noLinks nothing =>
    have habs := resolveLexical_absolute hR names (Sum.inl.inj hx).symm
    rw [habs] at hstat
    exact absurd (leads_of_stat hreach (names_append.mpr ⟨hR, names⟩) noLinks hstat)
      (nothing d)

theorem place_of_resolve (h : (mk (absolute R)).resolve t name = .ok host)
    (hparent : t.parent host = .ok e) : host = absolute R ∨ ∃ d n, (mk (absolute R)).Place t name d n := by
  obtain ⟨hvalid, hloop⟩ := resolve_ok h
  rcases (guestNames name).eq_nil_or_concat' with hnil | ⟨gs, n, hguest⟩
  · rw [hnil, resolveLoop_succ] at hloop
    exact Or.inl (Except.ok.inj hloop).symm
  have hnames : Path.Names (gs ++ [n]) := hguest ▸ names_guestNames name
  have hv : ∀ c ∈ gs ++ [n], Valid c := hguest ▸ valid_guestNames hvalid
  obtain ⟨hgs, hn⟩ := names_append.mp hnames
  have hn := names_singleton.mp hn
  rw [hguest] at hloop
  obtain ⟨left, a, b, hfurther, ha, hb⟩ :=
    further_resolveLoop hR hreach (absolute gs) name hn 40 hgs
  rw [← resolve_absolute _ t hgs (forall_mem_append.mp hv).1] at ha
  rw [hloop] at hb
  generalize hx : (Sum.inl a : Except ResolveError Path ⊕ Path) = x at hfurther
  cases hfurther with
  | again names => cases hx
  | failed er er' => cases hb
  | @found cs d names leads =>
    obtain ⟨hcs, hdir⟩ := (resolveParts_last hR hreach names leads hn hb.symm).1
    rw [Sum.inl.inj hx, resolveLexical_valid hR names hcs] at ha
    have hstat := stat_of_leads hreach (names_append.mpr ⟨hR, names⟩) leads hdir
    exact Or.inr ⟨d, n, gs, _, hguest, ha, hstat, hdir⟩
  | @missing cs names noLinks nothing =>
    have hsnoc := names_append.mpr ⟨names, names_singleton.mpr hn⟩
    have hhost := resolveLexical_absolute hR hsnoc hb.symm
    have hall := names_append.mpr ⟨hR, hsnoc⟩
    rw [← append_assoc] at hhost hall
    rw [hhost] at hparent
    exact absurd (parent_leads hreach hall noLinks hparent) (nothing e)

/-- `Resolve` never finds a path that ends with a link. -/
theorem resolve_notLink (hroot : t.lstat (absolute R) = .ok r) (hdir : t.isDir r = true)
    (h : (mk (absolute R)).resolve t name = .ok host) {i : Nat} (hi : t.lstat host = .ok i) :
    t.isLink i = false := by
  obtain ⟨cs, hcs, rfl, hl⟩ := resolveLoop_ok hR hreach (names_guestNames name) (resolve_ok h).2
  rcases cs.eq_nil_or_concat' with rfl | ⟨front, n, rfl⟩
  · rw [append_nil, hroot] at hi
    cases hi
    exact isLink_of_isDir hdir
  · have hall := names_append.mpr ⟨hR, hcs⟩
    rw [← append_assoc] at hi hall
    exact isLink_of_noLinks hreach hall hl hi

end Places

end IshGo.Vfs
