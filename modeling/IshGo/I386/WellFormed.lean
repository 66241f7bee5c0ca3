/-
# `IshGo.I386.WellFormed` — what the mapping table keeps, and the call that breaks it

A table is *well-formed* when its mappings are strictly increasing, non-empty,
inside the space and pairwise disjoint.  `MappingAt`, `checkRange`, `FindHole`
and every memory syscall rely on it.
-/
import IshGo.I386.AddressSpace
import IshGo.Lib.Intervals

namespace IshGo.I386

open Lib Ordered List

variable {a a' : AddressSpace} {m : Mapping}
variable {hint hole x : U32} {name : String}
variable {prot : U8} {size start stop : U32}

namespace AddressSpace

/-- Strictly increasing by start, non-empty and inside the space, no two
overlapping. -/
structure WellFormed (a : AddressSpace) : Prop where
  increasing : a.mappings.Pairwise (fun m n => m.start < n.start)
  inside : ∀ m ∈ a.mappings, m.start < m.endAddr ∧ m.endAddr ≤ a.max
  disjoint : a.mappings.Pairwise (fun m n => ∀ x, ¬ (m.Covers x ∧ n.Covers x))

abbrev Table (ms : List Mapping) : Prop :=
  Ordered (fun m : Mapping => m.start.toNat) (fun m => m.endAddr.toNat) ms

theorem covers_iff : m.Covers x ↔
      Within (fun m : Mapping => m.start.toNat) (fun m => m.endAddr.toNat) m x.toNat := Iff.rfl

theorem wellFormed_iff : a.WellFormed ↔ Table a.mappings ∧ ∀ m ∈ a.mappings, m.endAddr ≤ a.max := by
  constructor
  · intro h
    refine ⟨⟨fun m hm => (h.inside m hm).1, ?_⟩, fun m hm => (h.inside m hm).2⟩
    refine (h.increasing.and h.disjoint).imp_of_mem ?_
    intro m n _ hn hmn
    -- otherwise the second mapping starts inside the first
    by_contra hlt
    refine hmn.2 n.start ⟨⟨?_, ?_⟩, ⟨?_, (h.inside n hn).1⟩⟩
    · exact BitVec.le_of_lt hmn.1
    · show n.start.toNat < m.endAddr.toNat
      omega
    · exact BitVec.le_refl _
  · rintro ⟨ho, hmax⟩
    refine ⟨?_, fun m hm => ⟨ho.nonempty m hm, hmax m hm⟩, ?_⟩
    · refine ho.apart.imp_of_mem ?_
      intro m n hm _ hmn
      exact lt_of_lt_of_le (ho.nonempty m hm) hmn
    refine ho.apart.imp ?_
    intro m n hmn x hx
    have h₁ : x.toNat < m.endAddr.toNat := hx.1.2
    have h₂ : n.start.toNat ≤ x.toNat := hx.2.1
    omega

theorem WellFormed.table (h : a.WellFormed) : Table a.mappings := (wellFormed_iff.mp h).1

theorem wellFormed_new (size : U32) : (new size).WellFormed :=
  wellFormed_iff.mpr ⟨nil, fun _ h => absurd h not_mem_nil⟩

theorem WellFormed.mappingAt_iff (h : a.WellFormed) : a.mappingAt x = some m ↔ m ∈ a.mappings ∧ m.Covers x :=
  h.table.find?_iff (fun m => by rw [decide_eq_true_iff, covers_iff])

/-! ## The range check -/

/-- An accepted range does not wrap. -/
theorem accepted (h : ¬ a.rejects start size) :
    0 < size.toNat ∧ (start + size).toNat = start.toNat + size.toNat ∧
      start.toNat + size.toNat ≤ a.max.toNat := by
  simp only [rejects, not_or] at h
  obtain ⟨hsize, hstart, hroom⟩ := h
  refine ⟨?_, ?_, ?_⟩ <;> bv_omega

theorem overlaps_eq_false (h : overlaps start stop m = false) : m.endAddr ≤ start ∨ stop ≤ m.start := by
  simp only [overlaps, Bool.and_eq_false_iff, decide_eq_false_iff_not, BitVec.not_lt] at h
  exact h

/-! ## `Add` and `MapAnonymous` -/

theorem add_ok (h : a.add start size prot name = .ok a') : ¬ a.rejects start size ∧
      (∀ m ∈ a.mappings, m.endAddr ≤ start ∨ start + size ≤ m.start) ∧
      a' = { a with
        mappings := insertionSort (fun m n => m.start ≤ n.start)
          (a.mappings ++ [⟨start, start + size, prot, name⟩]) } := by
  unfold add at h
  split at h
  · cases h
  rename_i hacc
  split at h
  · cases h
  rename_i hfree
  cases h
  refine ⟨hacc, fun m hm => overlaps_eq_false ?_, rfl⟩
  simpa using find?_eq_none.mp hfree m hm

theorem WellFormed.add (h : a.WellFormed) (hadd : a.add start size prot name = .ok a') : a'.WellFormed := by
  obtain ⟨hacc, hfree, rfl⟩ := add_ok hadd
  obtain ⟨hpos, hend, hmax⟩ := accepted hacc
  refine wellFormed_iff.mpr ⟨h.table.sortIn (fun _ _ => Iff.rfl) ?_ hfree, ?_⟩
  · show start.toNat < (start + size).toNat
    omega
  intro m hm
  rcases mem_append.mp (mem_insertionSort _ |>.mp hm) with hm | hm
  · exact (h.inside m hm).2
  · rw [mem_singleton.mp hm]
    show (start + size).toNat ≤ a.max.toNat
    omega

/-- What `FindHole` returns: a candidate, a gap, or the end of the last mapping. -/
theorem findHole_cases (h : a.findHole size hint = .ok (hole, a')) :
    a' = { a with nextHint := hole + size } ∧ size ≤ a.max ∧
      ((∃ c, (0x1000 ≤ c ∨ c = a.nextHint) ∧ a.tryCandidate size c = some hole) ∨
        holeScan size a.mappings 0x1000 = .inl hole ∨
        holeScan size a.mappings 0x1000 = .inr hole ∧ size ≤ a.max - hole) := by
  unfold findHole at h
  split at h
  · cases h
  rename_i hsize
  dsimp only at h
  have hlow : 0x1000 ≤ if hint < 0x1000 then (0x1000 : U32) else hint := by split <;> bv_omega
  have hmax : size ≤ a.max := BitVec.not_lt.mp (not_or.mp hsize).2
  split at h
  · rename_i c hc
    cases h
    refine ⟨rfl, hmax, .inl ?_⟩
    rcases Option.or_eq_some_iff.mp hc with hc | ⟨-, hc⟩
    · exact ⟨_, .inl hlow, hc⟩
    · exact ⟨_, .inr rfl, hc⟩
  split at h
  · cases h
    exact ⟨rfl, hmax, .inr (.inl ‹_›)⟩
  split at h
  · cases h
    exact ⟨rfl, hmax, .inr (.inr ⟨‹_›, ‹_›⟩)⟩
  · cases h

/-- The search for a hole moves `nextHint` and nothing else. -/
theorem findHole_ok (h : a.findHole size hint = .ok (hole, a')) :
    ∃ next, a' = { a with nextHint := next } := ⟨_, (findHole_cases h).1⟩

theorem WellFormed.nextHint (h : a.WellFormed) (next : U32) : { a with nextHint := next }.WellFormed :=
  ⟨h.increasing, h.inside, h.disjoint⟩

theorem WellFormed.mapAt (h : a.WellFormed) (addr size : U32) (prot : U8) (name : String) :
    (a.mapAt addr size prot name).2.WellFormed := by
  unfold AddressSpace.mapAt
  split
  · exact h
  · rename_i a' ha'
    exact h.add ha'

theorem WellFormed.mapAnonymous (h : a.WellFormed) (addr size : U32) (prot : U8) (name : String) :
    (a.mapAnonymous addr size prot name).2.WellFormed := by
  unfold AddressSpace.mapAnonymous
  split
  · split
    · exact h
    · rename_i hole a' hfind
      obtain ⟨next, rfl⟩ := findHole_ok hfind
      exact (h.nextHint next).mapAt hole size prot name
  split
  · exact h
  · split
    · exact h
    · exact h.mapAt addr size prot name

/-! ## `Protect` -/

theorem protectLoop_some :
    ∀ {ms parts : List Mapping}, protectLoop start stop prot ms = some parts →
      ∃ pre m post, ms = pre ++ m :: post ∧ m.start ≤ start ∧ stop ≤ m.endAddr ∧
        parts = pre ++ ((if start > m.start then [{ m with endAddr := start }] else []) ++
          ({ m with start := start, endAddr := stop, prot := prot } ::
            ((if stop < m.endAddr then [{ m with start := stop }] else []) ++ post)))
  | [], _, h => nomatch h
  | m :: ms, parts, h => by
      unfold protectLoop at h
      split at h
      · rename_i hin
        cases h
        exact ⟨[], m, ms, rfl, hin.1, hin.2, rfl⟩
      cases hrec : protectLoop start stop prot ms with
      | none => rw [hrec] at h; cases h
      | some parts' =>
        rw [hrec] at h
        cases h
        obtain ⟨pre, k, post, rfl, h₁, h₂, rfl⟩ := protectLoop_some hrec
        exact ⟨m :: pre, k, post, rfl, h₁, h₂, rfl⟩

theorem Table.replace {pre post parts : List Mapping} (h : Table (pre ++ m :: post))
    (hp : Table parts) (hin : ∀ n ∈ parts, m.start ≤ n.start ∧ n.endAddr ≤ m.endAddr) :
    Table (pre ++ (parts ++ post)) := by
  obtain ⟨hpre, hmp, hcross⟩ := append_iff.mp h
  obtain ⟨_, hm, hpost⟩ := cons_iff.mp hmp
  refine append_iff.mpr ⟨hpre, append_iff.mpr ⟨hp, hpost, ?_⟩, ?_⟩
  · intro k hk n hn
    exact le_trans (hin k hk).2 (hm n hn)
  intro k hk n hn
  rcases mem_append.mp hn with hn | hn
  · exact le_trans (hcross k hk m mem_cons_self) (hin n hn).1
  · exact hcross k hk n (mem_cons_of_mem _ hn)

/-- The parts of a mapping around `[start, stop)`, with the middle one or
without. -/
theorem Table.parts {mid : List Mapping} (hlt : start.toNat < stop.toNat)
    (hmid : ∀ n ∈ mid, n.start = start ∧ n.endAddr = stop) (hone : mid.length ≤ 1) :
    Table ((if start > m.start then [{ m with endAddr := start }] else []) ++
      (mid ++ (if stop < m.endAddr then [{ m with start := stop }] else []))) := by
  have hleft : Table (if start > m.start then [{ m with endAddr := start }] else []) := by
    split
    · rename_i h
      exact cons_iff.mpr ⟨h, fun _ hn => absurd hn not_mem_nil, nil⟩
    · exact nil
  have hright : Table (if stop < m.endAddr then [{ m with start := stop }] else []) := by
    split
    · rename_i h
      exact cons_iff.mpr ⟨h, fun _ hn => absurd hn not_mem_nil, nil⟩
    · exact nil
  have hmidT : Table mid := by
    match mid, hmid, hone with
    | [], _, _ => exact nil
    | [n], hmid, _ =>
      obtain ⟨h₁, h₂⟩ := hmid n mem_cons_self
      refine cons_iff.mpr ⟨?_, fun _ hn => absurd hn not_mem_nil, nil⟩
      show n.start.toNat < n.endAddr.toNat
      rw [h₁, h₂]; exact hlt
  have hrightStart : ∀ n ∈ (if stop < m.endAddr then [{ m with start := stop }] else []),
      n.start = stop := by
    intro n hn
    split at hn
    · rw [mem_singleton.mp hn]
    · exact absurd hn not_mem_nil
  have hleftEnd : ∀ n ∈ (if start > m.start then [{ m with endAddr := start }] else []),
      n.endAddr = start := by
    intro n hn
    split at hn
    · rw [mem_singleton.mp hn]
    · exact absurd hn not_mem_nil
  refine append_iff.mpr ⟨hleft, append_iff.mpr ⟨hmidT, hright, ?_⟩, ?_⟩
  · intro k hk n hn
    show k.endAddr.toNat ≤ n.start.toNat
    rw [(hmid k hk).2, hrightStart n hn]
  intro k hk n hn
  show k.endAddr.toNat ≤ n.start.toNat
  rw [hleftEnd k hk]
  rcases mem_append.mp hn with hn | hn
  · rw [(hmid n hn).1]
  · rw [hrightStart n hn]; exact hlt.le

theorem protect_ok (h : a.protect start size prot = .ok a') :
    start.toNat < (start + size).toNat ∧
      ∃ parts, protectLoop start (start + size) prot a.mappings = some parts ∧
        a' = { a with mappings := parts } := by
  unfold protect at h
  split at h
  · cases h
  rename_i hacc
  simp only [not_or] at hacc
  obtain ⟨hsize, hwrap, _⟩ := hacc
  split at h
  · cases h
  · rename_i parts hparts
    cases h
    exact ⟨by bv_omega, parts, hparts, rfl⟩

theorem WellFormed.protect (h : a.WellFormed) (hp : a.protect start size prot = .ok a') : a'.WellFormed := by
  obtain ⟨hlt, parts, hparts, rfl⟩ := protect_ok hp
  obtain ⟨pre, m, post, hms, hstart, hstop, rfl⟩ := protectLoop_some hparts
  have hm : m ∈ a.mappings := by rw [hms]; simp
  have hparts := @Table.parts m _ _
    [{ m with start := start, endAddr := start + size, prot := prot }] hlt
    (fun n hn => by rw [mem_singleton.mp hn]; exact ⟨rfl, rfl⟩) (by simp)
  have hsub : ∀ n ∈ (if start > m.start then [{ m with endAddr := start }] else []) ++
      ([{ m with start := start, endAddr := start + size, prot := prot }] ++
        (if start + size < m.endAddr then [{ m with start := start + size }] else [])),
      m.start ≤ n.start ∧ n.endAddr ≤ m.endAddr := by
    intro n hn
    simp only [mem_append, mem_ite_nil_right, mem_singleton] at hn
    rcases hn with ⟨_, rfl⟩ | rfl | ⟨_, rfl⟩
    · exact ⟨BitVec.le_refl _, by simp only; bv_omega⟩
    · exact ⟨hstart, hstop⟩
    · exact ⟨by simp only; bv_omega, BitVec.le_refl _⟩
  have htable := Table.replace (hms ▸ h.table) hparts hsub
  simp only [append_assoc, singleton_append] at htable
  refine wellFormed_iff.mpr ⟨htable, fun n hn => ?_⟩
  simp only [mem_append, mem_cons] at hn hsub
  rcases hn with hn | hn | hn | hn | hn
  · exact (h.inside n (by rw [hms]; simp [hn])).2
  · exact BitVec.le_trans (hsub n (Or.inl hn)).2 (h.inside m hm).2
  · exact BitVec.le_trans (hsub n (Or.inr (Or.inl (Or.inl hn)))).2 (h.inside m hm).2
  · exact BitVec.le_trans (hsub n (Or.inr (Or.inr hn))).2 (h.inside m hm).2
  · exact (h.inside n (by rw [hms]; simp [hn])).2

/-! ## `Remove`, when the walk keeps up -/

/-- The range lies strictly inside a mapping that is not the last of the
table. -/
def SplitsInner (a : AddressSpace) (start size : U32) : Prop :=
  ∃ m ∈ a.mappings.dropLast, m.start < start ∧ start + size < m.endAddr

instance (a : AddressSpace) (start size : U32) : Decidable (a.SplitsInner start size) :=
  inferInstanceAs (Decidable (∃ m ∈ a.mappings.dropLast, _))

theorem length_unmapPieces (h : ¬ (m.start < start ∧ stop < m.endAddr)) :
    (unmapPieces start stop m).length ≤ 1 := by
  unfold unmapPieces
  split
  · simp
  by_cases h₁ : start > m.start
  · have h₂ : ¬ stop < m.endAddr := fun h₂ => h ⟨h₁, h₂⟩
    simp [h₁, h₂]
  · rw [if_neg h₁, nil_append]
    split <;> simp

theorem unmapPieces_parts (hlt : start.toNat < stop.toNat)
    (hm : m.start < m.endAddr) : Table (unmapPieces start stop m) ∧
      ∀ n ∈ unmapPieces start stop m, m.start ≤ n.start ∧ n.endAddr ≤ m.endAddr := by
  unfold unmapPieces
  split
  · refine ⟨cons_iff.mpr ⟨hm, fun _ h => absurd h not_mem_nil, nil⟩, ?_⟩
    intro n hn
    rw [mem_singleton.mp hn]
    exact ⟨BitVec.le_refl _, BitVec.le_refl _⟩
  rename_i hov
  simp only [not_or] at hov
  obtain ⟨hov₁, hov₂⟩ := hov
  refine ⟨@Table.parts m _ _ [] hlt (fun _ h => absurd h not_mem_nil) (by simp), ?_⟩
  intro n hn
  simp only [mem_append, mem_ite_nil_right, mem_singleton] at hn
  rcases hn with ⟨_, rfl⟩ | ⟨_, rfl⟩
  · exact ⟨BitVec.le_refl _, by simp only; bv_omega⟩
  · exact ⟨by simp only; bv_omega, BitVec.le_refl _⟩

theorem remove_eq_flatMap (hacc : ¬ a.rejects start size)
    (hsplit : ¬ a.SplitsInner start size) : a.remove start size =
      .ok { a with mappings := a.mappings.flatMap (unmapPieces start (start + size)) } := by
  rw [remove, if_neg hacc, inPlace_eq_flatMap]
  intro m hm
  exact length_unmapPieces (fun h => hsplit ⟨m, hm, h⟩)

/-- The table's slice may have spare capacity; `Remove` gives the same table
whatever it holds. -/
theorem remove_spare (a : AddressSpace) (start size : U32) (spare : List Mapping) :
    a.remove start size = if a.rejects start size then .error (.invalidUnmap start size)
      else .ok { a with mappings := inPlace (unmapPieces start (start + size)) a.mappings spare } := by
  rw [remove, inPlace_spare _ _ spare]

theorem WellFormed.flatMap_unmapPieces (h : a.WellFormed) (hlt : start.toNat < stop.toNat) :
    { a with mappings := a.mappings.flatMap (unmapPieces start stop) }.WellFormed := by
  have hparts := fun m (hm : m ∈ a.mappings) => unmapPieces_parts hlt (h.inside m hm).1
  refine wellFormed_iff.mpr ⟨h.table.flatMap hparts, fun n hn => ?_⟩
  obtain ⟨m, hm, hn⟩ := mem_flatMap.mp hn
  exact BitVec.le_trans ((hparts m hm).2 n hn).2 (h.inside m hm).2

/-! ## `Remove`, when the walk is overtaken -/

/-- A mapping disjoint from the range is its own only piece. -/
theorem unmapPieces_of_apart (h : stop ≤ m.start ∨ start ≥ m.endAddr) : unmapPieces start stop m = [m] :=
  if_pos h

theorem remove_eq_overtaken (h : a.WellFormed) (hacc : ¬ a.rejects start size)
    (hsplit : a.SplitsInner start size) :
    ∃ pre m post, a.mappings = pre ++ m :: post ∧ post ≠ [] ∧ m.start < start ∧
      start + size < m.endAddr ∧
      a.remove start size = .ok { a with
        mappings := pre ++ { m with endAddr := start } :: { m with start := start + size } ::
          replicate post.length { m with start := start + size } } := by
  obtain ⟨m, hm, hleft, hright⟩ := hsplit
  obtain ⟨hpos, hend, _⟩ := accepted hacc
  -- `m` is followed by the last mapping, at least
  obtain ⟨pre, rest, hrest⟩ := append_of_mem hm
  have hne : a.mappings ≠ [] := by
    intro hnil
    rw [hnil] at hm
    exact absurd hm not_mem_nil
  have hms : a.mappings = pre ++ m :: (rest ++ [a.mappings.getLast hne]) := by
    conv_lhs => rw [← dropLast_append_getLast hne, hrest]
    simp
  refine ⟨pre, m, rest ++ [a.mappings.getLast hne], hms, by simp, hleft, hright, ?_⟩
  obtain ⟨_, hmp, hcross⟩ := append_iff.mp (hms ▸ h.table)
  have hpieces : unmapPieces start (start + size) m =
      [{ m with endAddr := start }, { m with start := start + size }] := by
    have hover : ¬ (start + size ≤ m.start ∨ start ≥ m.endAddr) := by bv_omega
    simp [unmapPieces, hover, hleft, hright]
  rw [remove, if_neg hacc]
  conv_lhs => rw [hms]
  rw [inPlace_overtaken _ pre _ [] m _ _ ?_ hpieces (unmapPieces_of_apart ?_)]
  · intro y hy
    refine unmapPieces_of_apart (Or.inr ?_)
    have := hcross y hy m mem_cons_self
    bv_omega
  · exact Or.inl (BitVec.le_refl _)

/-- The table an inner split leaves is not well-formed: it holds one mapping
twice. -/
theorem not_wellFormed_of_splitsInner (h : a.WellFormed)
    (hacc : ¬ a.rejects start size) (hsplit : a.SplitsInner start size)
    (hrem : a.remove start size = .ok a') : ¬ a'.WellFormed := by
  obtain ⟨pre, m, post, _, hpost, _, _, heq⟩ := remove_eq_overtaken h hacc hsplit
  rw [heq] at hrem
  cases hrem
  intro hwf
  obtain ⟨k, post, rfl⟩ := exists_cons_of_ne_nil hpost
  have hinc := hwf.increasing
  have hdup := (pairwise_cons.mp (pairwise_cons.mp (pairwise_append.mp hinc).2.1).2).1 _ mem_cons_self
  exact absurd hdup (BitVec.lt_irrefl _)

/-! ## Runs -/

inductive Call where
  | add (start size : U32) (prot : U8) (name : String)
  | remove (start size : U32)
  | protect (start size : U32) (prot : U8)
  | mapAnonymous (addr size : U32) (prot : U8) (name : String)
  deriving DecidableEq, Repr

/-- The table after a call that returned: a failing `Add`, `Remove` or `Protect`
returns before it writes. -/
def exec (a : AddressSpace) : Call → AddressSpace
  | .add start size prot name => (a.add start size prot name).toOption.getD a
  | .remove start size => (a.remove start size).toOption.getD a
  | .protect start size prot => (a.protect start size prot).toOption.getD a
  | .mapAnonymous addr size prot name => (a.mapAnonymous addr size prot name).2

/-- The calls that keep a table well-formed: all of them, but for a `Remove` that
is accepted and lies strictly inside a mapping other than the last. -/
def Call.Keeps (a : AddressSpace) : Call → Prop
  | .remove start size => ¬ a.rejects start size → ¬ a.SplitsInner start size
  | _ => True

instance (a : AddressSpace) : (c : Call) → Decidable (c.Keeps a)
  | .remove start size =>
    inferInstanceAs (Decidable (¬ a.rejects start size → ¬ a.SplitsInner start size))
  | .add .. | .protect .. | .mapAnonymous .. => inferInstanceAs (Decidable True)

theorem exec_wellFormed_iff (h : a.WellFormed) (c : Call) : (a.exec c).WellFormed ↔ c.Keeps a := by
  cases c with
  | add start size prot name =>
    refine iff_of_true ?_ trivial
    cases hr : a.add start size prot name with
    | error e => rw [exec, hr]; exact h
    | ok a' => rw [exec, hr]; exact h.add hr
  | protect start size prot =>
    refine iff_of_true ?_ trivial
    cases hr : a.protect start size prot with
    | error e => rw [exec, hr]; exact h
    | ok a' => rw [exec, hr]; exact h.protect hr
  | mapAnonymous addr size prot name =>
    exact iff_of_true (h.mapAnonymous addr size prot name) trivial
  | remove start size =>
    show (a.exec (.remove start size)).WellFormed ↔
      (¬ a.rejects start size → ¬ a.SplitsInner start size)
    by_cases hacc : a.rejects start size
    · refine iff_of_true ?_ (fun hn => absurd hacc hn)
      rw [exec, remove, if_pos hacc]
      exact h
    obtain ⟨hpos, hend, _⟩ := accepted hacc
    constructor
    · intro hwf _ hsplit
      obtain ⟨pre, m, post, _, _, _, _, heq⟩ := remove_eq_overtaken h hacc hsplit
      rw [exec, heq] at hwf
      exact not_wellFormed_of_splitsInner h hacc hsplit heq hwf
    · intro hk
      rw [exec, remove_eq_flatMap hacc (hk hacc)]
      exact h.flatMap_unmapPieces (by omega)

/-- The tables met on a run of calls from `NewAddressSpace(size)`, each of which
keeps. -/
inductive Reached (size : U32) : AddressSpace → Prop
  | new : Reached size (new size)
  | call {a : AddressSpace} (c : Call) : Reached size a → c.Keeps a → Reached size (a.exec c)

theorem Reached.wellFormed (h : Reached size a) : a.WellFormed := by
  induction h with
  | new => exact wellFormed_new size
  | call c _ hk ih => exact (exec_wellFormed_iff ih c).mpr hk

/-- Along every run of keeping calls the table is well-formed, and the next call
leaves it so exactly when it keeps as well. -/
theorem reached_wellFormed (size : U32) (a : AddressSpace) (h : Reached size a) :
    a.WellFormed ∧ ∀ c : Call, (a.exec c).WellFormed ↔ c.Keeps a :=
  ⟨h.wellFormed, fun c => exec_wellFormed_iff h.wellFormed c⟩

/-- Two mappings, the middle of the second unmapped: the run of the theorem. -/
theorem reached_wellFormed_split_last :
    ([.add 0x1000 0x1000 3 "a", .add 0x3000 0x3000 3 "b", .remove 0x4000 0x1000].foldl exec
      (new 0x10000)).WellFormed :=
  (reached_wellFormed 0x10000 _
    (((Reached.new.call (.add 0x1000 0x1000 3 "a") trivial).call
      (.add 0x3000 0x3000 3 "b") trivial).call (.remove 0x4000 0x1000) (by decide))).1

/-- Two mappings, the middle of the FIRST unmapped: the second mapping is gone
and a piece of the first is there twice. -/
theorem remove_inner_not_wellFormed :
    ¬ ([.add 0x1000 0x3000 3 "a", .add 0x5000 0x1000 3 "b", .remove 0x2000 0x1000].foldl exec
      (new 0x10000)).WellFormed := by
  intro h
  exact absurd h.increasing (by decide)

end AddressSpace

end IshGo.I386
