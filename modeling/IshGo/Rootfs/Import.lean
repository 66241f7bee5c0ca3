/-
# `IshGo.Rootfs.Import` — a root directory from an archive

`InstallTar` of `internal/rootfs/import.go`, from the first header of the archive on: unpacking
the archive is left to its reader, and a list of `Item`s is what the reader gives.

`data_limit` is about the number of bytes that an import writes, which are counted in the log of
the tree.  The limit holds if no size that is added to the total wraps it around (`Fits`), and for
an archive that is read whole only then: without that (`Whole`) the files before may have been
shorter than their headers say.  Where the entries go is not dealt with: a link that an archive
makes is followed by the host.
-/
import IshGo.Lib.FileChange

namespace IshGo.Rootfs

open Lib Path List

variable {absRoot : Path} {h : Header} {maxBytes total total' : BitVec 64} {t : Tree}
variable {items : List Item}

inductive Typeflag where
  | dir
  | reg
  | symlink
  | link
  | other
  deriving DecidableEq, Repr

/-- A header of the archive, and what can be read after it: the bytes, and whether copying them or
closing the file fails. -/
structure Header where
  name : Path
  typeflag : Typeflag
  size : BitVec 64
  linkname : Path
  data : List (BitVec 8)
  copyErr : Bool
  closeErr : Bool

/-- What the reader gives next; `broken` is an error of the reader. -/
inductive Item where
  | header (h : Header)
  | broken

inductive ImportError where
  | tar
  | unsafeEntry (name : Path)
  | entryEscapes (name : Path)
  | dataLimit
  | copy
  | close
  | host (e : Errno)
  deriving DecidableEq, Repr

/-- `filepath.Abs` in the directory `cwd`. -/
def absPath (cwd root : Path) : Path :=
  if isAbs root then clean root else joinPath cwd root

/-- The checks on the name of an entry, and its place on the host. -/
def destination (absRoot : Path) (h : Header) : Except ImportError Path :=
  let name := clean h.name
  if name = dot ∨ isAbs name ∨ leavesUpward name then .error (.unsafeEntry h.name)
  else
    let dest := joinPath absRoot name
    match rel absRoot dest with
    | none => .error (.entryEscapes h.name)
    | some rel => if leavesUpward rel then .error (.entryEscapes h.name) else .ok dest

/-- What a hard link is a second name for.  Here nothing is checked. -/
def linkSource (absRoot : Path) (h : Header) : Path := joinPath absRoot (clean h.linkname)

/-- The result of a call on the host, with `total` as it is afterwards. -/
def finish (total : BitVec 64) : Except Errno Unit × Tree → Except ImportError (BitVec 64) × Tree
  | (.ok (), t) => (.ok total, t)
  | (.error e, t) => (.error (.host e), t)

def installFile (t : Tree) (dest : Path) (total : BitVec 64) (h : Header) :
    Except ImportError (BitVec 64) × Tree :=
  match t.mkdirAll (dir dest) with
  | (.error e, t) => (.error (.host e), t)
  | (.ok (), t) =>
    match t.openTrunc dest with
    | (.error e, t) => (.error (.host e), t)
    | (.ok i, t) =>
      let t := t.write i (h.data.take h.size.toNat)
      if h.copyErr then (.error .copy, t)
      else if h.closeErr then (.error .close, t)
      else (.ok total, t)

def installSymlink (t : Tree) (dest : Path) (total : BitVec 64) (h : Header) :
    Except ImportError (BitVec 64) × Tree :=
  match t.mkdirAll (dir dest) with
  | (.error e, t) => (.error (.host e), t)
  | (.ok (), t) => finish total ((t.remove dest).2.symlink h.linkname dest)

/-- The body of the loop: one entry, with the bytes that the entries before it had in all.  Sizes
are `int64`, and their sum can wrap. -/
def installEntry (absRoot : Path) (maxBytes : BitVec 64) (total : BitVec 64) (t : Tree) (h : Header) :
    Except ImportError (BitVec 64) × Tree :=
  match destination absRoot h with
  | .error e => (.error e, t)
  | .ok dest =>
    match h.typeflag with
    | .dir => finish total (t.mkdirAll dest)
    | .reg =>
      if h.size.slt 0 ∨ maxBytes.slt (total + h.size) then (.error .dataLimit, t)
      else installFile t dest (total + h.size) h
    | .symlink => installSymlink t dest total h
    | .link => finish total (t.link (linkSource absRoot h) dest)
    | .other => (.ok total, t)

def installItems (absRoot : Path) (maxBytes : BitVec 64) :
    BitVec 64 → Tree → List Item → Except ImportError Unit × Tree
  | _, t, [] => (.ok (), t)
  | _, t, .broken :: _ => (.error .tar, t)
  | total, t, .header h :: rest =>
    match installEntry absRoot maxBytes total t h with
    | (.error e, t) => (.error e, t)
    | (.ok total, t) => installItems absRoot maxBytes total t rest

def installTar (cwd root : Path) (maxBytes : BitVec 64) (items : List Item) (t : Tree) :
    Except ImportError Unit × Tree :=
  let absRoot := absPath cwd root
  match t.mkdirAll absRoot with
  | (.error e, t) => (.error (.host e), t)
  | (.ok (), t) => installItems absRoot maxBytes 0 t items

theorem finish_tree (total : BitVec 64) (res : Except Errno Unit × Tree) : (finish total res).2 = res.2 := by
  obtain ⟨res, t⟩ := res
  cases res <;> rfl

/-- `/r` is empty, and `/o` has the file `p`. -/
def twoDirs : Tree :=
  { nodes :=
      { cell := fun
          | 0 => .dir [([0x72], 1), ([0x6f], 2)]
          | 1 => .dir []
          | 2 => .dir [([0x70], 3)]
          | _ => .file []
        next := 4 }
    log := [] }

def fileHeader (name : Path) : Header :=
  { name := name, typeflag := .reg, size := 2, linkname := [], data := [0x68, 0x69]
    copyErr := false, closeErr := false }

/-! ## The limit -/

theorem written_makeAt (t : Tree) (p : Path) (x : Node) :
    written (t.makeAt p x).2.log = written t.log := by
  unfold Tree.makeAt
  repeat' split
  all_goals first | rfl | exact Nat.zero_add _

theorem written_mkdirNames (t : Tree) (up : List Path) :
    written (t.mkdirNames up).2.log = written t.log := by
  induction up with
  | nil => rfl
  | cons c up ih =>
    simp only [Tree.mkdirNames]
    split
    · rfl
    split
    · rename_i hup
      rw [hup] at ih
      exact ih
    rename_i t₁ hup
    rw [hup] at ih
    have hmake := (written_makeAt t₁ (absolute (c :: up).reverse) (.dir [])).trans ih
    split
    · rename_i hmk
      rw [Tree.mkdir] at hmk
      rw [hmk] at hmake
      exact hmake
    rename_i hmk
    rw [Tree.mkdir] at hmk
    rw [hmk] at hmake
    split
    · exact hmake
    · exact hmake

theorem written_mkdirAll (t : Tree) (p : Path) : written (t.mkdirAll p).2.log = written t.log :=
  written_mkdirNames t _

theorem written_openTrunc (t : Tree) (p : Path) : written (t.openTrunc p).2.log = written t.log := by
  unfold Tree.openTrunc
  repeat' split
  all_goals first | rfl | exact Nat.zero_add _

theorem written_remove (t : Tree) (p : Path) : written (t.remove p).2.log = written t.log := by
  unfold Tree.remove
  repeat' split
  all_goals first | rfl | exact Nat.zero_add _

theorem written_symlink (t : Tree) (target p : Path) :
    written (t.symlink target p).2.log = written t.log := by
  unfold Tree.symlink
  split
  · rfl
  · exact written_makeAt t p _

theorem written_link (t : Tree) (old new : Path) : written (t.link old new).2.log = written t.log := by
  unfold Tree.link
  repeat' split
  all_goals first | rfl | exact Nat.zero_add _

/-- The entry is a file, and the host can open it for writing. -/
def Opens (absRoot : Path) (t : Tree) (h : Header) : Prop :=
  h.typeflag = .reg ∧ ∃ dest t₁ i t₂, destination absRoot h = .ok dest ∧
    t.mkdirAll (dir dest) = (.ok (), t₁) ∧ t₁.openTrunc dest = (.ok i, t₂)

/-- The size passes the check of the limit, as the source makes it. -/
def Admits (maxBytes total size : BitVec 64) : Prop := ¬ (size.slt 0 = true ∨ maxBytes.slt (total + size) = true)

theorem finish_ok {res : Except Errno Unit × Tree}
    (h : finish total res = (.ok total', t)) : total' = total := by
  obtain ⟨res, t'⟩ := res
  cases res with
  | error e => cases h
  | ok => cases h; rfl

/-- A file is written up to its size, or not at all. -/
theorem installFile_cases (t : Tree) (dest : Path) (total : BitVec 64) (h : Header) :
    (∃ e t', installFile t dest total h = (.error e, t') ∧ written t'.log = written t.log ∧
      ∀ t₁ i t₂, t.mkdirAll (dir dest) = (.ok (), t₁) → t₁.openTrunc dest ≠ (.ok i, t₂)) ∨
    ∃ t₁ i t₂, t.mkdirAll (dir dest) = (.ok (), t₁) ∧ t₁.openTrunc dest = (.ok i, t₂) ∧
      written (installFile t dest total h).2.log = written t.log + (h.data.take h.size.toNat).length ∧
      ∀ total', (installFile t dest total h).1 = .ok total' → total' = total ∧ h.copyErr = false := by
  have hmk := written_mkdirAll t (dir dest)
  unfold installFile
  rcases hd : t.mkdirAll (dir dest) with ⟨res, t₁⟩
  rw [hd] at hmk
  cases res with
  | error e => exact .inl ⟨_, _, rfl, hmk, nofun⟩
  | ok u =>
    have hop := written_openTrunc t₁ dest
    rcases ho : t₁.openTrunc dest with ⟨res, t₂⟩
    rw [ho] at hop
    dsimp only
    rw [ho]
    cases res with
    | error e =>
      refine .inl ⟨_, _, rfl, hop.trans hmk, fun t₁' i t₂' h₁ h₂ => ?_⟩
      cases h₁
      cases ho.symm.trans h₂
    | ok i =>
      have hwrite : written (t₂.write i (h.data.take h.size.toNat)).log =
          written t.log + (h.data.take h.size.toNat).length :=
        (Nat.add_comm _ _).trans (congrArg (· + _) (hop.trans hmk))
      refine .inr ⟨t₁, i, t₂, rfl, ho, ?_⟩
      dsimp only
      split
      · exact ⟨hwrite, nofun⟩
      rename_i hcopy
      split
      · exact ⟨hwrite, nofun⟩
      · refine ⟨hwrite, fun total' heq => ?_⟩
        cases heq
        exact ⟨rfl, eq_false_of_ne_true hcopy⟩

/-- What one entry writes, and what it adds to the total. -/
theorem installEntry_cases (absRoot : Path) (maxBytes total : BitVec 64) (t : Tree) (h : Header) :
    (¬ (Opens absRoot t h ∧ Admits maxBytes total h.size) ∧
      written (installEntry absRoot maxBytes total t h).2.log = written t.log ∧
      ∀ total', (installEntry absRoot maxBytes total t h).1 = .ok total' →
        h.typeflag ≠ .reg ∧ total' = total) ∨
    Opens absRoot t h ∧ Admits maxBytes total h.size ∧
      written (installEntry absRoot maxBytes total t h).2.log =
        written t.log + (h.data.take h.size.toNat).length ∧
      ∀ total', (installEntry absRoot maxBytes total t h).1 = .ok total' →
        total' = total + h.size ∧ h.copyErr = false := by
  unfold installEntry
  cases hdest : destination absRoot h with
  | error e =>
    refine .inl ⟨?_, rfl, nofun⟩
    rintro ⟨⟨-, dest, -, -, -, hok, -⟩, -⟩
    cases hdest.symm.trans hok
  | ok dest =>
    have hother (res : Except Errno Unit × Tree) {flag : Typeflag} (hflag : h.typeflag = flag)
        (hne : flag ≠ .reg) (hres : written res.2.log = written t.log) :
        ¬ (Opens absRoot t h ∧ Admits maxBytes total h.size) ∧
          written (finish total res).2.log = written t.log ∧
          ∀ total', (finish total res).1 = .ok total' → flag ≠ .reg ∧ total' = total :=
      ⟨fun hop => hne (hflag.symm.trans hop.1.1),
        (congrArg (fun t : Tree => written t.log) (finish_tree total res)).trans hres,
        fun total' heq => ⟨hne, finish_ok (t := (finish total res).2) (Prod.ext heq rfl)⟩⟩
    cases hflag : h.typeflag with
    | dir => exact .inl (hother _ hflag nofun (written_mkdirAll t dest))
    | link => exact .inl (hother _ hflag nofun (written_link t _ dest))
    | other => exact .inl (hother (.ok (), t) hflag nofun rfl)
    | symlink =>
      have hmk := written_mkdirAll t (dir dest)
      dsimp only
      unfold installSymlink
      rcases hd : t.mkdirAll (dir dest) with ⟨res, t₁⟩
      rw [hd] at hmk
      cases res with
      | error e => exact .inl ⟨fun hop => (by cases hflag.symm.trans hop.1.1), hmk, nofun⟩
      | ok u =>
        refine .inl (hother _ hflag nofun ?_)
        rw [written_symlink, written_remove]
        exact hmk
    | reg =>
      dsimp only
      by_cases hadmits : Admits maxBytes total h.size
      · rw [if_neg hadmits]
        rcases installFile_cases t dest (total + h.size) h with ⟨e, t', heq, hsame, hno⟩ |
          ⟨t₁, i, t₂, hd, ho, hwrote, hok⟩
        · rw [heq]
          refine .inl ⟨?_, hsame, nofun⟩
          rintro ⟨⟨-, dest', t₁, i, t₂, hdest', hd, ho⟩, -⟩
          cases hdest.symm.trans hdest'
          exact hno t₁ i t₂ hd ho
        · exact .inr ⟨⟨hflag, dest, t₁, i, t₂, hdest, hd, ho⟩, hadmits, hwrote, hok⟩
      · rw [if_pos (not_not.mp hadmits)]
        exact .inl ⟨fun hop => hadmits hop.2, rfl, nofun⟩

theorem written_installItems (absRoot : Path) (maxBytes total : BitVec 64) (t : Tree) (items : List Item) :
    written t.log ≤ written (installItems absRoot maxBytes total t items).2.log := by
  induction items generalizing total t with
  | nil => exact Nat.le_refl _
  | cons item rest ih =>
    cases item with
    | broken => exact Nat.le_refl _
    | header h =>
      have hstep : written t.log ≤ written (installEntry absRoot maxBytes total t h).2.log := by
        rcases installEntry_cases absRoot maxBytes total t h with ⟨-, hsame, -⟩ | ⟨-, -, hwrote, -⟩ <;> omega
      rw [installItems]
      split
      · rename_i he
        rwa [he] at hstep
      · rename_i total' t' he
        rw [he] at hstep
        exact Nat.le_trans hstep (ih total' t')

/-! Sizes, and the sum that can wrap. -/

/-- The bytes that an entry has by its header. -/
def Item.declared : Item → Nat
  | .header h => if h.typeflag = .reg then h.size.toNat else 0
  | .broken => 0

/-- Of a file that is reached and can be opened, the size does not wrap the sum of the sizes so far
around, or what can be read of it does not pass the limit.  `sum` and `total` stand for the entries
before `items`. -/
def Fits (absRoot : Path) (maxBytes : BitVec 64) (sum : Nat) (total : BitVec 64) (t : Tree)
    (items : List Item) : Prop :=
  ∀ pre h post t₁, items = pre ++ .header h :: post →
    installItems absRoot maxBytes total t pre = (.ok (), t₁) → Opens absRoot t₁ h → h.size.slt 0 = false →
      sum + (pre.map Item.declared).sum + h.size.toNat < 2 ^ 63 ∨
        sum + (pre.map Item.declared).sum + h.data.length ≤ maxBytes.toNat

section Fits
variable {sum : Nat}

theorem fits_cons {rest : List Item} : Fits absRoot maxBytes sum total t (.header h :: rest) ↔
    (Opens absRoot t h → h.size.slt 0 = false →
      sum + h.size.toNat < 2 ^ 63 ∨ sum + h.data.length ≤ maxBytes.toNat) ∧
    ∀ total' t', installEntry absRoot maxBytes total t h = (.ok total', t') →
      Fits absRoot maxBytes (sum + (Item.header h).declared) total' t' rest := by
  constructor
  · intro hfits
    refine ⟨hfits [] h rest t rfl rfl, fun total' t' he pre h' post t₁ heq hrun => ?_⟩
    have hnext := hfits (.header h :: pre) h' post t₁ (by rw [heq]; rfl) (by rw [installItems, he]; exact hrun)
    rwa [map_cons, sum_cons, ← Nat.add_assoc] at hnext
  · rintro ⟨hfirst, hrest⟩ pre h' post t₁ heq hrun
    cases pre with
    | nil =>
      cases heq
      cases hrun
      exact hfirst
    | cons item pre =>
      obtain ⟨rfl, hrest'⟩ := cons.inj heq
      rw [installItems] at hrun
      split at hrun
      · cases hrun
      · rename_i total' t' he
        rw [map_cons, sum_cons, ← Nat.add_assoc]
        exact hrest total' t' he pre h' post t₁ hrest' hrun

/-- The check of the limit, in terms of the sum: it lets through what fits, and what wraps. -/
theorem admits_iff {size : BitVec 64} (hmax : (0 : BitVec 64).slt maxBytes)
    (htotal : total.toNat ≤ maxBytes.toNat) (hsize : size.slt 0 = false) :
    Admits maxBytes total size ↔
      2 ^ 63 ≤ total.toNat + size.toNat ∨ total.toNat + size.toNat ≤ maxBytes.toNat := by
  have hlt := maxBytes.isLt
  have hs := size.isLt
  unfold Admits
  simp only [BitVec.slt, BitVec.toInt_eq_toNat_cond, decide_eq_true_eq, decide_eq_false_iff_not,
    BitVec.toNat_add] at *
  grind

theorem toNat_pos (hmax : (0 : BitVec 64).slt maxBytes) : maxBytes.toNat < 2 ^ 63 := by
  have hlt := maxBytes.isLt
  simp only [BitVec.slt, BitVec.toInt_eq_toNat_cond, decide_eq_true_eq] at hmax
  grind

variable (hmax : (0 : BitVec 64).slt maxBytes)
include hmax

/-- `wrote` is what the entries before have written.  Once the sum is past the end of `int64`, no
file is opened any more. -/
theorem written_le {wrote : Nat} (hfits : Fits absRoot maxBytes sum total t items)
    (hwrote : wrote ≤ maxBytes.toNat)
    (hsum : sum < 2 ^ 63 → total.toNat = sum ∧ sum ≤ maxBytes.toNat ∧ wrote ≤ sum) :
    wrote + written (installItems absRoot maxBytes total t items).2.log ≤ maxBytes.toNat + written t.log := by
  have hpos := toNat_pos hmax
  induction items generalizing sum total t wrote with
  | nil => exact Nat.add_le_add_right hwrote _
  | cons item rest ih =>
    cases item with
    | broken => exact Nat.add_le_add_right hwrote _
    | header h =>
      obtain ⟨hfirst, hrest⟩ := fits_cons.mp hfits
      have hentry := installEntry_cases absRoot maxBytes total t h
      rw [installItems]
      rcases he : installEntry absRoot maxBytes total t h with ⟨res, t'⟩
      rw [he] at hentry
      rcases hentry with ⟨-, hsame, hok⟩ | ⟨hopens, hadmits, hnew, hok⟩
      · cases res with
        | error e => exact Nat.add_le_add hwrote (Nat.le_of_eq hsame)
        | ok total' =>
          obtain ⟨hflag, rfl⟩ := hok total' rfl
          have hzero : (Item.header h).declared = 0 := if_neg hflag
          have hnext := ih (hrest _ t' he) hwrote (by rwa [hzero])
          dsimp only at hsame ⊢
          omega
      have hsize : h.size.slt 0 = false := eq_false_of_ne_true fun hneg => hadmits (.inl hneg)
      have hdeclared : (Item.header h).declared = h.size.toNat := if_pos hopens.1
      have hlen := length_take_le h.size.toNat h.data
      have hlen' : (h.data.take h.size.toNat).length ≤ h.data.length := length_take_le' ..
      -- what the entry writes is within the limit, and in the sum as long as it does not wrap
      have hstep : wrote + (h.data.take h.size.toNat).length ≤ maxBytes.toNat ∧
          (sum + h.size.toNat < 2 ^ 63 → (total + h.size).toNat = sum + h.size.toNat ∧
            sum + h.size.toNat ≤ maxBytes.toNat ∧
            wrote + (h.data.take h.size.toNat).length ≤ sum + h.size.toNat) := by
        have hbefore := hfirst hopens hsize
        obtain ⟨htotal, -, hw⟩ := hsum (by omega)
        have hin := (admits_iff hmax (by omega) hsize).mp hadmits
        rw [BitVec.toNat_add, htotal]
        omega
      cases res with
      | error e =>
        dsimp only at hnew ⊢
        omega
      | ok total' =>
        obtain ⟨rfl, -⟩ := hok total' rfl
        have hnext := ih (hrest _ t' he) hstep.1 (by rw [hdeclared]; exact hstep.2)
        dsimp only at hnew ⊢
        omega

/-- As `archive/tar` reads them: what is copied without an error is the whole file. -/
def Whole (items : List Item) : Prop :=
  ∀ h, Item.header h ∈ items → h.copyErr = false → h.size.toNat ≤ h.data.length

theorem fits_of_written_le (hwhole : Whole items) (htotal : total.toNat = sum) (hsum : sum ≤ maxBytes.toNat)
    (hle : sum + written (installItems absRoot maxBytes total t items).2.log ≤
      maxBytes.toNat + written t.log) : Fits absRoot maxBytes sum total t items := by
  have hpos := toNat_pos hmax
  induction items generalizing sum total t with
  | nil =>
    intro pre h post t₁ heq
    cases pre <;> cases heq
  | cons item rest ih =>
    cases item with
    | broken =>
      intro pre h post t₁ heq hrun
      cases pre with
      | nil => cases heq
      | cons item pre =>
        obtain ⟨rfl, -⟩ := cons.inj heq
        cases hrun
    | header h =>
      have hentry := installEntry_cases absRoot maxBytes total t h
      rw [installItems] at hle
      rcases he : installEntry absRoot maxBytes total t h with ⟨res, t'⟩
      rw [he] at hentry hle
      have hlater : written t'.log ≤ written (match (res, t') with
          | (.error e, t) => ((.error e, t) : Except ImportError Unit × Tree)
          | (.ok total, t) => installItems absRoot maxBytes total t rest).2.log := by
        cases res with
        | error e => exact Nat.le_refl _
        | ok total' => exact written_installItems ..
      have hwhole' : Whole rest := fun h hh => hwhole h (mem_cons_of_mem _ hh)
      rw [fits_cons]
      rcases hentry with ⟨hno, hsame, hok⟩ | ⟨hopens, hadmits, hnew, hok⟩
      · refine ⟨fun hopens hsize => ?_, fun total' t'' he' => ?_⟩
        · have hout := mt (admits_iff hmax (by omega) hsize).mpr fun hadmits => hno ⟨hopens, hadmits⟩
          omega
        · cases he.symm.trans he'
          obtain ⟨hflag, rfl⟩ := hok total' rfl
          have hzero : (Item.header h).declared = 0 := if_neg hflag
          refine ih hwhole' ?_ ?_ ?_ <;> rw [hzero]
          · exact htotal
          · exact hsum
          · dsimp only at hsame hle
            omega
      have hsize : h.size.slt 0 = false := eq_false_of_ne_true fun hneg => hadmits (.inl hneg)
      have hdeclared : (Item.header h).declared = h.size.toNat := if_pos hopens.1
      have hin := (admits_iff hmax (by omega) hsize).mp hadmits
      have htake := length_take (i := h.size.toNat) (l := h.data)
      dsimp only at hnew
      refine ⟨fun _ _ => ?_, fun total' t'' he' => ?_⟩
      · omega
      · cases he.symm.trans he'
        obtain ⟨rfl, hcopy⟩ := hok _ rfl
        have hfull := hwhole h mem_cons_self hcopy
        dsimp only at hle hlater
        have hfit : sum + h.size.toNat ≤ maxBytes.toNat := by omega
        refine ih hwhole' ?_ ?_ ?_ <;> rw [hdeclared]
        · rw [BitVec.toNat_add, htotal]
          omega
        · exact hfit
        · omega

end Fits

/-- **The limit.**  `InstallTar` writes no more than the limit if the sizes of the files that it
reaches do not wrap the sum around; and for an archive that is read whole, only then. -/
theorem data_limit {cwd root : Path} {maxBytes : BitVec 64} (items : List Item) (t : Tree)
    (hmax : (0 : BitVec 64).slt maxBytes) :
    ((∀ t₀, t.mkdirAll (absPath cwd root) = (.ok (), t₀) →
        Fits (absPath cwd root) maxBytes 0 0 t₀ items) →
      written (installTar cwd root maxBytes items t).2.log ≤ maxBytes.toNat + written t.log) ∧
    (Whole items → written (installTar cwd root maxBytes items t).2.log ≤ maxBytes.toNat + written t.log →
      ∀ t₀, t.mkdirAll (absPath cwd root) = (.ok (), t₀) →
        Fits (absPath cwd root) maxBytes 0 0 t₀ items) := by
  have hmk := written_mkdirAll t (absPath cwd root)
  unfold installTar
  rcases hd : t.mkdirAll (absPath cwd root) with ⟨res, t₀⟩
  rw [hd] at hmk
  dsimp only at hmk ⊢
  rw [hd]
  cases res with
  | error e => exact ⟨fun _ => hmk ▸ Nat.le_add_left .., fun _ _ => nofun⟩
  | ok u =>
    rw [← hmk]
    refine ⟨fun hfits => ?_, fun hwhole hle t₀' heq => ?_⟩
    · have hle := written_le hmax (hfits t₀ rfl) (Nat.zero_le _)
        fun _ => ⟨rfl, Nat.zero_le _, Nat.le_refl _⟩
      rwa [Nat.zero_add] at hle
    · cases heq
      refine fits_of_written_le hmax hwhole rfl (Nat.zero_le _) ?_
      rwa [Nat.zero_add]

/-- Two files of two bytes, for a limit of three. -/
theorem data_limit_twoFiles :
    written (installTar [0x2f] [0x2f, 0x72] 3
      [.header (fileHeader [0x66]), .header (fileHeader [0x67])] twoDirs).2.log ≤ 3 := by
  refine (data_limit _ twoDirs (by decide)).1 fun t₀ _ => ?_
  intro pre h post t₁ heq _ _ _
  rcases pre with _ | ⟨a, _ | ⟨b, _ | _⟩⟩ <;> cases heq <;> exact .inl (by decide)

/-- The second size is 2⁶³ - 1, and the sum is negative; there is no more to read after two bytes. -/
theorem data_limit_wraps :
    written (installTar [0x2f] [0x2f, 0x72] 3 [.header (fileHeader [0x66]),
      .header { fileHeader [0x67] with size := 0x7fffffffffffffff, copyErr := true }] twoDirs).2.log = 4 := by
  decide +kernel

end IshGo.Rootfs
