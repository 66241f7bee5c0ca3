/-
# `IshGo.Kernel.Lookup` — what the calls on a table do to a lookup

On a well-formed table, and address by address:

    Add            the new mapping inside the range, the old answer outside   (`mappingAt_add`)
    Remove         nothing inside, the old answer outside                     (`remove_exact`)
    MapAnonymous   an `Add` after a move of `nextHint`                        (`mapAnonymous_ok`)
-/
import IshGo.I386.Access
import IshGo.Kernel.Unmap

namespace IshGo.I386.AddressSpace

open Lib List

variable {x : U32}
variable {a a' : AddressSpace} {size start : U32} {prot : U8} {name : String}
variable {candidate hole mapped : U32}

instance (start size x : U32) : Decidable (InRange start size x) :=
  inferInstanceAs (Decidable (_ ∧ _))

theorem mem_add (hadd : a.add start size prot name = .ok a') {n : Mapping} :
    n ∈ a'.mappings ↔ n ∈ a.mappings ∨ n = ⟨start, start + size, prot, name⟩ := by
  obtain ⟨_, _, rfl⟩ := add_ok hadd
  rw [mem_insertionSort, mem_append, mem_singleton]

theorem max_add (hadd : a.add start size prot name = .ok a') : a'.max = a.max := by
  obtain ⟨_, _, rfl⟩ := add_ok hadd
  rfl

theorem add_fits (hadd : a.add start size prot name = .ok a') : start.toNat + size.toNat < 2 ^ 32 := by
  obtain ⟨_, _, hmax⟩ := accepted (add_ok hadd).1
  omega

theorem covers_new (hacc : ¬ a.rejects start size) :
    Mapping.Covers ⟨start, start + size, prot, name⟩ x ↔ InRange start size x := by
  obtain ⟨_, hend, _⟩ := accepted hacc
  unfold Mapping.Covers InRange
  constructor
  · rintro ⟨h₁, h₂⟩
    exact ⟨h₁, by bv_omega⟩
  · rintro ⟨h₁, h₂⟩
    exact ⟨h₁, by bv_omega⟩

theorem WellFormed.mappingAt_add (h : a.WellFormed) (hadd : a.add start size prot name = .ok a')
    (m : Mapping) :
    a'.mappingAt x = some m ↔
      if InRange start size x then m = ⟨start, start + size, prot, name⟩
      else a.mappingAt x = some m := by
  obtain ⟨hacc, hfree, _⟩ := add_ok hadd
  rw [(h.add hadd).mappingAt_iff, mem_add hadd, h.mappingAt_iff]
  split
  · rename_i hx
    constructor
    · rintro ⟨hm | hm, hcov⟩
      · -- an old mapping has no address of the new range
        obtain ⟨_, hend, _⟩ := accepted hacc
        obtain ⟨h₁, h₂⟩ := hcov
        obtain ⟨hx₁, hx₂⟩ := hx
        have := hfree m hm
        bv_omega
      · exact hm
    · rintro rfl
      exact ⟨Or.inr rfl, (covers_new hacc).mpr hx⟩
  · rename_i hx
    constructor
    · rintro ⟨hm | rfl, hcov⟩
      · exact ⟨hm, hcov⟩
      · exact absurd ((covers_new hacc).mp hcov) hx
    · rintro ⟨hm, hcov⟩
      exact ⟨Or.inl hm, hcov⟩

theorem WellFormed.mappingAt_add_inside (h : a.WellFormed)
    (hadd : a.add start size prot name = .ok a') (hx : InRange start size x) :
    a'.mappingAt x = some ⟨start, start + size, prot, name⟩ :=
  (h.mappingAt_add hadd _).mpr (by rw [if_pos hx])

theorem WellFormed.mappingAt_add_outside (h : a.WellFormed)
    (hadd : a.add start size prot name = .ok a') (hx : ¬ InRange start size x) :
    a'.mappingAt x = a.mappingAt x := by
  refine Option.ext fun m => ?_
  rw [h.mappingAt_add hadd, if_neg hx]

theorem WellFormed.mappingAt_before_add (h : a.WellFormed)
    (hadd : a.add start size prot name = .ok a') (hx : InRange start size x) : a.mappingAt x = none := by
  obtain ⟨hacc, hfree, _⟩ := add_ok hadd
  obtain ⟨_, hend, _⟩ := accepted hacc
  obtain ⟨hx₁, hx₂⟩ := hx
  cases hat : a.mappingAt x with
  | none => rfl
  | some m =>
    obtain ⟨hm, hcov₁, hcov₂⟩ := h.mappingAt_iff.mp hat
    have := hfree m hm
    bv_omega

def FreeAt (a : AddressSpace) (start size : U32) : Prop :=
  start.toNat + size.toNat ≤ a.max.toNat ∧
    ∀ m ∈ a.mappings, m.endAddr.toNat ≤ start.toNat ∨ start.toNat + size.toNat ≤ m.start.toNat

theorem FreeAt.accepted (h : a.FreeAt start size) (hsize : size ≠ 0) : ¬ a.rejects start size := by
  have := h.1
  unfold rejects
  bv_omega

theorem FreeAt.find?_overlaps (h : a.FreeAt start size) :
    a.mappings.find? (overlaps start (start + size)) = none := by
  refine find?_eq_none.mpr fun m hm => ?_
  have hside := h.2 m hm
  simp only [overlaps, Bool.and_eq_true, decide_eq_true_eq, not_and]
  intro h₁ h₂
  bv_omega

/-- What `IsFree` says of a range inside the space. -/
theorem freeAt_of_isFree (hfits : start.toNat + size.toNat ≤ a.max.toNat)
    (h : a.isFree start (start + size) = true) : a.FreeAt start size := by
  refine ⟨hfits, fun m hm => ?_⟩
  have hnone : a.mappings.find? (overlaps start (start + size)) = none := Option.isNone_iff_eq_none.mp h
  have := overlaps_eq_false (Bool.eq_false_iff.mpr (find?_eq_none.mp hnone m hm))
  bv_omega

theorem FreeAt.add (h : a.FreeAt start size) (hsize : size ≠ 0) (prot : U8) (name : String) :
    ∃ a', a.add start size prot name = .ok a' := by
  rw [AddressSpace.add, if_neg (h.accepted hsize), h.find?_overlaps]
  exact ⟨_, rfl⟩

theorem freeAt_of_add (hadd : a.add start size prot name = .ok a') : a.FreeAt start size := by
  obtain ⟨hacc, hfree, _⟩ := add_ok hadd
  obtain ⟨_, hend, hmax⟩ := AddressSpace.accepted hacc
  refine ⟨hmax, fun m hm => ?_⟩
  have := hfree m hm
  bv_omega

/-! ## `Remove` -/

theorem WellFormed.remove_exact (h : a.WellFormed)
    (hacc : ¬ a.rejects start size) (hsplit : ¬ a.SplitsInner start size) :
    ∃ a', a.remove start size = .ok a' ∧ a'.WellFormed ∧ a'.max = a.max ∧
      UnmapsExactly a a' start size := by
  obtain ⟨_, hend, _⟩ := accepted hacc
  exact ⟨_, remove_eq_flatMap hacc hsplit,
    @WellFormed.flatMap_unmapPieces a start (start + size) h (by omega), rfl, h.unmapsExactly hacc⟩

/-! ## `Remove` after `Add` -/

theorem WellFormed.remove_add (h : a.WellFormed) (hadd : a.add start size prot name = .ok a') :
    a'.remove start size = .ok { a' with mappings := a.mappings } := by
  obtain ⟨hacc, hfree, _⟩ := add_ok hadd
  obtain ⟨hpos, hend, hmax⟩ := accepted hacc
  have hwf := h.add hadd
  have hacc' : ¬ a'.rejects start size := by
    rw [rejects, max_add hadd]
    exact hacc
  -- each old mapping lies on one side of the range
  have hpieces : ∀ m ∈ a'.mappings, unmapPieces start (start + size) m =
      if m = ⟨start, start + size, prot, name⟩ then [] else [m] := by
    intro m hm
    split
    · rename_i heq
      subst heq
      have hlt : start < start + size := by bv_omega
      simp [unmapPieces, BitVec.not_le.mpr hlt]
    rename_i hne
    refine unmapPieces_of_apart ?_
    rcases (mem_add hadd).mp hm with hm | hm
    · exact (hfree m hm).symm
    · exact absurd hm hne
  have hsplit : ¬ a'.SplitsInner start size := by
    rintro ⟨m, hm, h₁, h₂⟩
    rcases (mem_add hadd).mp (dropLast_subset _ hm) with hm | rfl
    · have := hfree m hm
      bv_omega
    · exact BitVec.lt_irrefl _ h₁
  rw [remove_eq_flatMap hacc' hsplit]
  have htable : Table (a'.mappings.flatMap (unmapPieces start (start + size))) :=
    (@WellFormed.flatMap_unmapPieces a' start (start + size) hwf (by omega)).table
  rw [htable.eq_of_mem_iff h.table fun m => ?_]
  rw [mem_flatMap]
  constructor
  · rintro ⟨n, hn, hm⟩
    rw [hpieces n hn] at hm
    split at hm
    · exact absurd hm not_mem_nil
    · rename_i hne
      rw [mem_singleton.mp hm]
      exact ((mem_add hadd).mp hn).resolve_right hne
  intro hm
  have hm' := (mem_add hadd).mpr (Or.inl hm)
  refine ⟨m, hm', ?_⟩
  rw [hpieces m hm', if_neg ?_]
  · exact mem_singleton_self m
  · rintro rfl
    have := hfree _ hm
    bv_omega

/-! ## The search for a hole -/

/-- A candidate is a free page, and rounding does not take it below the first page. -/
theorem tryCandidate_some (h : a.tryCandidate size candidate = some hole) :
    a.FreeAt hole size ∧ (0x1000 ≤ candidate → 0x1000 ≤ hole) := by
  unfold tryCandidate at h
  dsimp only at h
  split at h
  · cases h
  split at h
  · rename_i hfree
    cases h
    refine ⟨freeAt_of_isFree (by bv_omega) hfree, fun hlow => ?_⟩
    have hpage : (candidate &&& ~~~0xfff).toNat = candidate.toNat - candidate.toNat % 4096 :=
      @toNat_and_not_mask 32 candidate 12 (by decide)
    bv_omega
  · cases h

theorem tryCandidate_of_freeAt (h : a.FreeAt (candidate &&& ~~~0xfff) size) :
    a.tryCandidate size candidate = some (candidate &&& ~~~0xfff) := by
  have hfits := h.1
  unfold tryCandidate
  rw [if_neg (by bv_omega), isFree, h.find?_overlaps]
  rfl

theorem holeScan_inl : ∀ {ms : List Mapping} {cursor hole : U32}, holeScan size ms cursor = .inl hole →
      cursor ≤ hole ∧ (∃ m ∈ ms, hole.toNat + size.toNat ≤ m.start.toNat) ∧ (Table ms →
        ∀ m ∈ ms, m.endAddr.toNat ≤ hole.toNat ∨ hole.toNat + size.toNat ≤ m.start.toNat)
  | [], _, _, h => by cases h
  | m :: ms, cursor, hole, h => by
      unfold holeScan at h
      split at h
      · rename_i hgap
        cases h
        have hroom : cursor.toNat + size.toNat ≤ m.start.toNat := by bv_omega
        refine ⟨BitVec.le_refl _, ⟨m, mem_cons_self, hroom⟩, fun hms n hn => Or.inr ?_⟩
        obtain ⟨hm, hafter, -⟩ := Ordered.cons_iff.mp hms
        rcases mem_cons.mp hn with rfl | hn
        · exact hroom
        · have := hafter n hn
          omega
      · obtain ⟨hle, ⟨k, hk, hroom⟩, hsides⟩ := holeScan_inl h
        refine ⟨by split at hle <;> bv_omega, ⟨k, mem_cons_of_mem _ hk, hroom⟩, fun hms n hn => ?_⟩
        rcases mem_cons.mp hn with rfl | hn
        · left
          split at hle <;> bv_omega
        · exact hsides (Ordered.cons_iff.mp hms).2.2 n hn

theorem holeScan_inr : ∀ {ms : List Mapping} {cursor last : U32},
    holeScan size ms cursor = .inr last →
      cursor ≤ last ∧ (∀ m ∈ ms, m.endAddr ≤ last) ∧
        ∀ x : U32, cursor ≤ x →
          (∀ m ∈ ms, m.endAddr.toNat ≤ x.toNat ∨ x.toNat + size.toNat ≤ m.start.toNat) → last ≤ x
  | [], _, _, h => by
      cases h
      exact ⟨BitVec.le_refl _, fun m hm => absurd hm not_mem_nil, fun x hx _ => hx⟩
  | m :: ms, cursor, last, h => by
      unfold holeScan at h
      split at h
      · cases h
      rename_i hgap
      obtain ⟨hle, hends, hnone⟩ := holeScan_inr h
      refine ⟨by split at hle <;> bv_omega, fun n hn => ?_, fun x hx hsides => ?_⟩
      · rcases mem_cons.mp hn with rfl | hn
        · split at hle <;> bv_omega
        · exact hends n hn
      · refine hnone x ?_ fun n hn => hsides n (mem_cons_of_mem _ hn)
        have := hsides m mem_cons_self
        split <;> bv_omega

/-- What is found is above the first page, unless the search starts on it. -/
theorem findHole_low {hint : U32} (h : a.findHole size hint = .ok (hole, a')) :
    0x1000 ≤ hole ∨ a.nextHint < 0x1000 := by
  obtain ⟨-, -, ⟨c, hc, htry⟩ | hscan | ⟨hscan, -⟩⟩ := findHole_cases h
  · by_cases hnext : a.nextHint < 0x1000
    · exact Or.inr hnext
    · refine Or.inl ((tryCandidate_some htry).2 (hc.elim id ?_))
      rintro rfl
      exact BitVec.not_lt.mp hnext
  · exact Or.inl (holeScan_inl hscan).1
  · exact Or.inl (holeScan_inr hscan).1

theorem WellFormed.findHole_complete (h : a.WellFormed) (hfree : a.FreeAt x size)
    (hsize : size ≠ 0) (hlow : 0x1000 ≤ x ∨ x = 0 ∧ a.nextHint < 0x1000) (hint : U32) :
    ∃ hole next, a.findHole size hint = .ok (hole, { a with nextHint := next }) ∧
      a.FreeAt hole size := by
  have hfits := hfree.1
  unfold findHole
  rw [if_neg (by bv_omega)]
  dsimp only
  generalize (if hint < 0x1000 then 0x1000 else hint) = hint
  cases htry : a.tryCandidate size hint with
  | some c => exact ⟨c, c + size, rfl, (tryCandidate_some htry).1⟩
  | none =>
    rw [Option.none_or]
    cases htry' : a.tryCandidate size a.nextHint with
    | some c => exact ⟨c, c + size, rfl, (tryCandidate_some htry').1⟩
    | none =>
      rcases hlow with hlow | ⟨rfl, hnext⟩
      · cases hscan : holeScan size a.mappings 0x1000 with
        | inl cursor =>
          obtain ⟨_, ⟨m, hm, hroom⟩, hsides⟩ := holeScan_inl hscan
          have hmax := h.inside m hm
          exact ⟨cursor, cursor + size, rfl, by bv_omega, hsides h.table⟩
        | inr cursor =>
          obtain ⟨_, hends, hnone⟩ := holeScan_inr hscan
          have hle := hnone x hlow hfree.2
          dsimp only
          rw [if_pos (by bv_omega)]
          exact ⟨cursor, cursor + size, rfl, by bv_omega, fun m hm => Or.inl (hends m hm)⟩
      · -- the page of `nextHint` is the first one
        have hpage : (a.nextHint &&& ~~~0xfff).toNat = a.nextHint.toNat - a.nextHint.toNat % 4096 :=
          @toNat_and_not_mask 32 a.nextHint 12 (by decide)
        have hzero : a.nextHint &&& ~~~0xfff = 0 := by bv_omega
        rw [← hzero] at hfree
        rw [tryCandidate_of_freeAt hfree] at htry'
        cases htry'

/-! ## `MapAnonymous` -/

section MapAnonymous
variable {addr : U32}

theorem mapAt_cases (a : AddressSpace) (addr size : U32) (prot : U8) (name : String) :
    (∃ e, a.mapAt addr size prot name = (.error e, a) ∧ a.add addr size prot name = .error e) ∨
      ∃ a', a.mapAt addr size prot name = (.ok addr, a') ∧ a.add addr size prot name = .ok a' := by
  unfold mapAt
  cases h : a.add addr size prot name with
  | error e => exact Or.inl ⟨e, rfl, rfl⟩
  | ok a' => exact Or.inr ⟨a', rfl, rfl⟩

/-- `MapAnonymous` moves `nextHint` at most and fails, or it is an `Add`. -/
theorem mapAnonymous_cases (a : AddressSpace) (addr size : U32) (prot : U8) (name : String) :
    ∃ next,
      (∃ e, a.mapAnonymous addr size prot name = (.error e, { a with nextHint := next })) ∨
      ∃ mapped a', a.mapAnonymous addr size prot name = (.ok mapped, a') ∧
        { a with nextHint := next }.add mapped size prot name = .ok a' ∧
        (addr ≠ 0 → mapped = addr) := by
  unfold mapAnonymous
  split
  · rename_i haddr
    cases hfind : a.findHole size a.nextHint with
    | error e => exact ⟨a.nextHint, Or.inl ⟨e, rfl⟩⟩
    | ok r =>
      obtain ⟨hole, a₁⟩ := r
      obtain ⟨next, rfl⟩ := findHole_ok hfind
      refine ⟨next, ?_⟩
      rcases mapAt_cases { a with nextHint := next } hole size prot name with
        ⟨e, hmap, _⟩ | ⟨a', hmap, hadd⟩
      · exact Or.inl ⟨e, hmap⟩
      · exact Or.inr ⟨hole, a', hmap, hadd, fun hne => absurd haddr hne⟩
  · refine ⟨a.nextHint, ?_⟩
    split
    · exact Or.inl ⟨_, rfl⟩
    split
    · exact Or.inl ⟨_, rfl⟩
    · rcases mapAt_cases a addr size prot name with ⟨e, hmap, _⟩ | ⟨a', hmap, hadd⟩
      · exact Or.inl ⟨e, hmap⟩
      · exact Or.inr ⟨addr, a', hmap, hadd, fun _ => rfl⟩

theorem mapAnonymous_ok (h : a.mapAnonymous addr size prot name = (.ok mapped, a')) :
    ∃ next, { a with nextHint := next }.add mapped size prot name = .ok a' ∧
      (addr ≠ 0 → mapped = addr) := by
  obtain ⟨next, ⟨e', h'⟩ | ⟨mapped', a₁, h', hadd, haddr⟩⟩ := mapAnonymous_cases a addr size prot name
  · rw [h] at h'
    cases h'
  · rw [h] at h'
    cases h'
    exact ⟨next, hadd, haddr⟩

/-- `MapAnonymous` at a free address. -/
theorem FreeAt.mapAnonymous (h : a.FreeAt addr size) (haddr : addr ≠ 0) (hsize : size ≠ 0)
    (prot : U8) (name : String) : ∃ a', a.mapAnonymous addr size prot name = (.ok addr, a') := by
  obtain ⟨a', hadd⟩ := h.add hsize prot name
  have hfits := h.1
  have hfree : a.isFree addr (addr + size) = true := by
    rw [isFree, h.find?_overlaps]
    rfl
  refine ⟨a', ?_⟩
  rw [AddressSpace.mapAnonymous, if_neg haddr, if_neg (by bv_omega), hfree, if_neg (by decide), mapAt,
    hadd]

/-- `MapAnonymous` anywhere. -/
theorem WellFormed.mapAnonymous_complete (h : a.WellFormed) (hfree : a.FreeAt x size)
    (hsize : size ≠ 0) (hlow : 0x1000 ≤ x ∨ x = 0 ∧ a.nextHint < 0x1000) (prot : U8)
    (name : String) : ∃ mapped a', a.mapAnonymous 0 size prot name = (.ok mapped, a') := by
  obtain ⟨hole, next, hfind, hhole⟩ := h.findHole_complete hfree hsize hlow a.nextHint
  have hhole' : { a with nextHint := next }.FreeAt hole size := hhole
  obtain ⟨a', hadd⟩ := hhole'.add hsize prot name
  refine ⟨hole, a', ?_⟩
  rw [AddressSpace.mapAnonymous, if_pos rfl, hfind]
  dsimp only
  rw [AddressSpace.mapAt, hadd]

theorem mapAnonymous_low
    (hmap : a.mapAnonymous 0 size prot name = (.ok mapped, a')) : 0x1000 ≤ mapped ∨ a.nextHint < 0x1000 := by
  rw [AddressSpace.mapAnonymous, if_pos rfl] at hmap
  cases hfind : a.findHole size a.nextHint with
  | error e =>
    rw [hfind] at hmap
    cases hmap
  | ok r =>
    obtain ⟨hole, a₁⟩ := r
    rw [hfind] at hmap
    rcases mapAt_cases a₁ hole size prot name with ⟨e, hat, _⟩ | ⟨a₂, hat, _⟩
    · rw [show a₁.mapAt hole size prot name = _ from hmap] at hat
      cases hat
    · rw [show a₁.mapAt hole size prot name = _ from hmap] at hat
      cases hat
      exact findHole_low hfind

end MapAnonymous

theorem WellFormed.freeAt_of_gone (h : a.WellFormed)
    (hfits : start.toNat + size.toNat ≤ a.max.toNat) (hsize : size ≠ 0)
    (hgone : ∀ x, InRange start size x → a.mappingAt x = none) : a.FreeAt start size := by
  refine ⟨hfits, fun m hm => ?_⟩
  have hne := (h.inside m hm).1
  by_contra hmeet
  -- the later of the two starts lies in both
  obtain ⟨x, hx, hcov⟩ : ∃ x, InRange start size x ∧ m.Covers x := by
    unfold InRange Mapping.Covers
    by_cases hle : start ≤ m.start
    · exact ⟨m.start, by bv_omega, by bv_omega⟩
    · exact ⟨start, by bv_omega, by bv_omega⟩
  have hat := h.mappingAt_iff.mpr ⟨hm, hcov⟩
  rw [hgone x hx] at hat
  cases hat

end IshGo.I386.AddressSpace
