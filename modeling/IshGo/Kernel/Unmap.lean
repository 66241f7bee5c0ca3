/-
# `IshGo.Kernel.Unmap` — when unmapping a range touches that range only

`UnmapsExactly a a' start size`: in `a'` no address of the range is mapped, every
other address sees what it saw in `a`, and no address is mapped twice.
-/
import IshGo.Kernel.MemoryOps

namespace IshGo.I386.AddressSpace

open Lib Kernel List

variable {a : AddressSpace} {size start : U32}
variable {a' : AddressSpace} {x : U32}

/-- `x` is in `[start, start + size)`, in exact arithmetic. -/
def InRange (start size x : U32) : Prop :=
  start.toNat ≤ x.toNat ∧ x.toNat < start.toNat + size.toNat

theorem not_inRange_of_le (h : start.toNat + size.toNat ≤ x.toNat) : ¬ InRange start size x := by
  unfold InRange
  omega

/-- The effect `Remove` is meant to have. -/
structure UnmapsExactly (a a' : AddressSpace) (start size : U32) : Prop where
  gone : ∀ x, InRange start size x → a'.mappingAt x = none
  kept : ∀ x, ¬ InRange start size x → a'.seen x = a.seen x
  once : ∀ x, (a'.mappings.filter (fun m => m.Covers x)).length ≤ 1

/-! ## The pieces of one mapping, address by address -/

section Pieces
variable {m : Mapping} {x : U32}

theorem of_mem_unmapPieces (hend : (start + size).toNat = start.toNat + size.toNat)
    {n : Mapping} (hn : n ∈ unmapPieces start (start + size) m) (hx : n.Covers x) :
    m.Covers x ∧ ¬ InRange start size x ∧ n.prot = m.prot ∧ n.name = m.name := by
  unfold unmapPieces at hn
  unfold Mapping.Covers at hx ⊢
  unfold InRange
  split at hn
  · rename_i hap
    rw [mem_singleton.mp hn] at hx ⊢
    exact ⟨hx, by bv_omega, rfl, rfl⟩
  rename_i hov
  simp only [mem_append, mem_ite_nil_right, mem_singleton] at hn
  rcases hn with ⟨h, rfl⟩ | ⟨h, rfl⟩
  · dsimp only at hx ⊢
    exact ⟨by bv_omega, by bv_omega, rfl, rfl⟩
  · dsimp only at hx ⊢
    exact ⟨by bv_omega, by bv_omega, rfl, rfl⟩

theorem exists_unmapPieces (hend : (start + size).toNat = start.toNat + size.toNat)
    (hm : m.Covers x) (hx : ¬ InRange start size x) :
    ∃ n ∈ unmapPieces start (start + size) m, n.Covers x := by
  unfold unmapPieces
  unfold Mapping.Covers at hm ⊢
  unfold InRange at hx
  split
  · exact ⟨m, mem_singleton_self m, hm⟩
  by_cases hside : x < start
  · refine ⟨{ m with endAddr := start }, ?_, hm.1, hside⟩
    rw [if_pos (show start > m.start by bv_omega)]
    exact mem_append_left _ (mem_singleton_self _)
  have hge : start + size ≤ x := by bv_omega
  refine ⟨{ m with start := start + size }, ?_, hge, hm.2⟩
  rw [if_pos (show start + size < m.endAddr by bv_omega)]
  exact mem_append_right _ (mem_singleton_self _)

end Pieces

/-! ## Both outcomes -/

theorem WellFormed.once (h : a.WellFormed) (x : U32) :
    (a.mappings.filter (fun m => m.Covers x)).length ≤ 1 := by
  have hp : (a.mappings.filter (fun m => m.Covers x)).Pairwise
      (fun m n => ∀ y, ¬ (m.Covers y ∧ n.Covers y)) := h.disjoint.filter _
  have hcov : ∀ m ∈ a.mappings.filter (fun m => m.Covers x), m.Covers x := by
    intro m hm
    simpa using (mem_filter.mp hm).2
  generalize a.mappings.filter (fun m => m.Covers x) = l at hp hcov ⊢
  match l, hp, hcov with
  | [], _, _ => simp
  | [_], _, _ => simp
  | m :: n :: rest, hp, hcov =>
    have hdis := (pairwise_cons.mp hp).1 n mem_cons_self x
    exact absurd ⟨hcov m mem_cons_self, hcov n (mem_cons_of_mem _ mem_cons_self)⟩ hdis

theorem WellFormed.unmapsExactly (h : a.WellFormed) (hacc : ¬ a.rejects start size) :
    UnmapsExactly a { a with mappings := a.mappings.flatMap (unmapPieces start (start + size)) }
      start size := by
  obtain ⟨hpos, hend, _⟩ := accepted hacc
  have hwf := h.flatMap_unmapPieces (show start.toNat < (start + size).toNat by omega)
  refine ⟨fun x hx => ?_, fun x hx => ?_, hwf.once⟩
  · cases hat : mappingAt _ x with
    | none => rfl
    | some n =>
      obtain ⟨hn, hcov⟩ := hwf.mappingAt_iff.mp hat
      obtain ⟨m, _, hn⟩ := mem_flatMap.mp hn
      exact absurd hx (of_mem_unmapPieces hend hn hcov).2.1
  cases hat : a.mappingAt x with
  | some m =>
    obtain ⟨hm, hcov⟩ := h.mappingAt_iff.mp hat
    obtain ⟨n, hn, hncov⟩ := exists_unmapPieces hend hcov hx
    have hat' := hwf.mappingAt_iff.mpr ⟨mem_flatMap.mpr ⟨m, hm, hn⟩, hncov⟩
    obtain ⟨_, _, hprot, hname⟩ := of_mem_unmapPieces hend hn hncov
    rw [seen, seen, hat, hat', Option.map_some, Option.map_some, hprot, hname]
  | none =>
    cases hat' : mappingAt _ x with
    | none => rw [seen, seen, hat, hat']
    | some n =>
      obtain ⟨hn, hncov⟩ := hwf.mappingAt_iff.mp hat'
      obtain ⟨m, hm, hn⟩ := mem_flatMap.mp hn
      have := h.mappingAt_iff.mpr ⟨hm, (of_mem_unmapPieces hend hn hncov).1⟩
      rw [hat] at this
      cases this

theorem WellFormed.lost_of_splitsInner (h : a.WellFormed)
    (hacc : ¬ a.rejects start size) (hsplit : a.SplitsInner start size)
    (hrem : a.remove start size = .ok a') :
    ∃ k ∈ a.mappings, start.toNat + size.toNat ≤ k.start.toNat ∧
      ∀ n ∈ a'.mappings, ¬ n.Covers k.start := by
  obtain ⟨hpos, hend, _⟩ := accepted hacc
  obtain ⟨pre, m, post, hms, hpost, hleft, hright, heq⟩ := remove_eq_overtaken h hacc hsplit
  rw [heq] at hrem
  cases hrem
  obtain ⟨k, post, rfl⟩ := exists_cons_of_ne_nil hpost
  obtain ⟨_, hmk, hpre⟩ := Ordered.append_iff.mp (hms ▸ h.table)
  obtain ⟨_, hm, hk⟩ := Ordered.cons_iff.mp hmk
  have hmk : m.endAddr.toNat ≤ k.start.toNat := hm k mem_cons_self
  refine ⟨k, by rw [hms]; simp, by bv_omega, ?_⟩
  -- nothing in the new table ends behind the split mapping
  intro n hn hcov
  have hcov₂ : k.start.toNat < n.endAddr.toNat := hcov.2
  simp only [mem_append, mem_cons, mem_replicate] at hn
  have hend' : ∀ n' : Mapping, n' = { m with start := start + size } → n' = n →
      k.start.toNat < m.endAddr.toNat := by
    rintro _ rfl rfl
    exact hcov₂
  rcases hn with hn | rfl | rfl | ⟨_, rfl⟩
  · have := hpre n hn k (mem_cons_of_mem _ mem_cons_self)
    omega
  · have : k.start.toNat < start.toNat := hcov₂
    bv_omega
  · exact absurd (hend' _ rfl rfl) (by omega)
  · exact absurd (hend' _ rfl rfl) (by omega)

theorem WellFormed.mappingAt_start (h : a.WellFormed) {m : Mapping}
    (hm : m ∈ a.mappings) : a.mappingAt m.start = some m :=
  h.mappingAt_iff.mpr ⟨hm, BitVec.le_refl _, (h.inside m hm).1⟩

theorem mappingAt_eq_none (h : ∀ m ∈ a.mappings, ¬ m.Covers x) : a.mappingAt x = none := by
  refine find?_eq_none.mpr fun m hm => ?_
  rw [decide_eq_true_iff]
  exact h m hm

theorem not_unmapsExactly_of_splitsInner (h : a.WellFormed)
    (hacc : ¬ a.rejects start size) (hsplit : a.SplitsInner start size)
    (hrem : a.remove start size = .ok a') : ¬ UnmapsExactly a a' start size := by
  obtain ⟨k, hk, hbehind, hlost⟩ := h.lost_of_splitsInner hacc hsplit hrem
  intro hex
  have hseen := hex.kept k.start (not_inRange_of_le hbehind)
  rw [seen, seen, h.mappingAt_start hk, mappingAt_eq_none hlost] at hseen
  cases hseen

/-- `Remove` on a well-formed table: an error changes nothing, and success has
the intended effect, exactly when an accepted range does not split an inner
mapping.  `munmap` is `Remove` on the page-rounded range. -/
theorem remove_exact_iff (a : AddressSpace) (h : a.WellFormed) :
    (∀ start size : U32,
      ((∀ e, a.remove start size = .error e →
          (a.exec (.remove start size)).mappings = a.mappings) ∧
        ∀ a', a.remove start size = .ok a' → UnmapsExactly a a' start size) ↔
      (¬ a.rejects start size → ¬ a.SplitsInner start size)) ∧
    ∀ (addr length : U32) (a' : AddressSpace), munmap a addr length = (0, a') →
      ∃ size, pageLength length = some size ∧
        (UnmapsExactly a a' addr size ↔ ¬ a.SplitsInner addr size) := by
  have hexact : ∀ {start size : U32} {a' : AddressSpace}, a.remove start size = .ok a' →
      (UnmapsExactly a a' start size ↔ ¬ a.SplitsInner start size) := by
    intro start size a' hrem
    have hacc : ¬ a.rejects start size := by
      intro hrej
      rw [remove, if_pos hrej] at hrem
      cases hrem
    constructor
    · intro hex hsplit
      exact not_unmapsExactly_of_splitsInner h hacc hsplit hrem hex
    intro hsplit
    rw [remove_eq_flatMap hacc hsplit] at hrem
    cases hrem
    exact h.unmapsExactly hacc
  refine ⟨fun start size => ⟨fun hprop hacc => ?_, fun hcond => ⟨fun e he => ?_, ?_⟩⟩, ?_⟩
  · have hrem : a.remove start size = .ok _ := if_neg hacc
    exact (hexact hrem).mp (hprop.2 _ hrem)
  · rw [exec, he]
    rfl
  · intro a' hrem
    refine (hexact hrem).mpr (hcond ?_)
    intro hrej
    rw [remove, if_pos hrej] at hrem
    cases hrem
  intro addr length a' hun
  unfold munmap at hun
  split at hun
  · cases hun
  rename_i size hsize
  split at hun
  · cases hun
  split at hun
  · cases hun
  · rename_i space' hrem
    cases hun
    exact ⟨size, hsize, hexact hrem⟩

def twoRegions : AddressSpace :=
  { mappings := [⟨0x1000, 0x4000, 3, "a"⟩, ⟨0x5000, 0x8000, 1, "b"⟩]
    max := 0x10000
    nextHint := 0x01000000 }

theorem twoRegions_wellFormed : twoRegions.WellFormed :=
  wellFormed_iff.mpr ⟨⟨by decide, by decide⟩, by decide⟩

/-- Unmapping the middle of the LAST region meets the condition. -/
theorem remove_exact_last_region :
    twoRegions.WellFormed ∧
      UnmapsExactly twoRegions (twoRegions.exec (.remove 0x6000 0x1000)) 0x6000 0x1000 :=
  ⟨twoRegions_wellFormed,
    (((remove_exact_iff twoRegions twoRegions_wellFormed).1 0x6000 0x1000).mpr (by decide)).2 _ rfl⟩

/-- Unmapping the middle of the FIRST region unmaps the second one as well. -/
theorem remove_inner_not_exact :
    twoRegions.WellFormed ∧ ¬ twoRegions.rejects 0x2000 0x1000 ∧
      ¬ UnmapsExactly twoRegions (twoRegions.exec (.remove 0x2000 0x1000)) 0x2000 0x1000 := by
  refine ⟨twoRegions_wellFormed, by decide, fun hex => ?_⟩
  have hout : ¬ InRange 0x2000 0x1000 0x5000 := by
    unfold InRange
    decide
  exact absurd (hex.kept 0x5000 hout) (by decide)

end IshGo.I386.AddressSpace
