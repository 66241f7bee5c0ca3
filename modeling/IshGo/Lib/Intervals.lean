/-
# `IshGo.Lib.Intervals` — tables of disjoint intervals, in order

A table is a list of entries of any type `ι`; `lo` and `hi` read off the
half-open interval `[lo m, hi m)` of an entry in a linear order.  `Ordered` says
that the intervals are non-empty and follow one another, and everything a table
does is then local:

    lookup by address finds THE entry that covers it           (`Ordered.find?_iff`)
    replacing entries by parts of themselves keeps the order   (`Ordered.flatMap`)
    sorting in one more disjoint entry keeps the order         (`Ordered.sortIn`)
    the entries determine the list                             (`Ordered.eq_of_mem_iff`)
-/
import Mathlib.Data.List.Sort
import Mathlib.Order.Basic

namespace IshGo.Lib

open List

variable {ι K : Type} [LinearOrder K] (lo hi : ι → K)

/-- `x` lies in the interval of `m`. -/
def Within (m : ι) (x : K) : Prop := lo m ≤ x ∧ x < hi m

structure Ordered (ms : List ι) : Prop where
  nonempty : ∀ m ∈ ms, lo m < hi m
  apart : ms.Pairwise (fun m n => hi m ≤ lo n)

variable {lo hi}

namespace Ordered

theorem nil : Ordered lo hi ([] : List ι) := ⟨fun _ h => absurd h not_mem_nil, List.Pairwise.nil⟩

theorem cons_iff {m : ι} {ms : List ι} :
    Ordered lo hi (m :: ms) ↔
      lo m < hi m ∧ (∀ n ∈ ms, hi m ≤ lo n) ∧ Ordered lo hi ms := by
  constructor
  · intro h
    have hp := pairwise_cons.mp h.apart
    exact ⟨h.nonempty m mem_cons_self, hp.1, fun n hn => h.nonempty n (mem_cons_of_mem _ hn), hp.2⟩
  rintro ⟨hm, hms, ho⟩
  refine ⟨fun n hn => ?_, pairwise_cons.mpr ⟨hms, ho.apart⟩⟩
  rcases mem_cons.mp hn with rfl | hn
  · exact hm
  · exact ho.nonempty n hn

theorem append_iff {ms ns : List ι} :
    Ordered lo hi (ms ++ ns) ↔
      Ordered lo hi ms ∧ Ordered lo hi ns ∧ ∀ m ∈ ms, ∀ n ∈ ns, hi m ≤ lo n := by
  constructor
  · intro h
    have hp := pairwise_append.mp h.apart
    exact ⟨⟨fun m hm => h.nonempty m (mem_append_left _ hm), hp.1⟩,
      ⟨fun m hm => h.nonempty m (mem_append_right _ hm), hp.2.1⟩, hp.2.2⟩
  rintro ⟨hm, hn, hmn⟩
  refine ⟨fun x hx => ?_, pairwise_append.mpr ⟨hm.apart, hn.apart, hmn⟩⟩
  rcases mem_append.mp hx with hx | hx
  · exact hm.nonempty x hx
  · exact hn.nonempty x hx

theorem unique {ms : List ι} (h : Ordered lo hi ms) {m n : ι} {x : K}
    (hm : m ∈ ms) (hn : n ∈ ms) (hmx : Within lo hi m x) (hnx : Within lo hi n x) : m = n := by
  induction ms with
  | nil => exact absurd hm not_mem_nil
  | cons k ms ih =>
    obtain ⟨_, hk, ho⟩ := cons_iff.mp h
    rcases mem_cons.mp hm with rfl | hm' <;> rcases mem_cons.mp hn with rfl | hn'
    · rfl
    · exact absurd (lt_of_lt_of_le hmx.2 ((hk n hn').trans hnx.1)) (lt_irrefl _)
    · exact absurd (lt_of_lt_of_le hnx.2 ((hk m hm').trans hmx.1)) (lt_irrefl _)
    · exact ih ho hm' hn'

theorem find?_iff {ms : List ι} (h : Ordered lo hi ms) {p : ι → Bool} {x : K}
    (hp : ∀ m, p m = true ↔ Within lo hi m x) {m : ι} : ms.find? p = some m ↔ m ∈ ms ∧ Within lo hi m x := by
  constructor
  · intro hf
    exact ⟨mem_of_find?_eq_some hf, (hp m).mp (find?_some hf)⟩
  rintro ⟨hm, hx⟩
  cases hf : ms.find? p with
  | none => exact absurd ((hp m).mpr hx) (find?_eq_none.mp hf m hm)
  | some n =>
    have hn := h.unique (mem_of_find?_eq_some hf) hm ((hp n).mp (find?_some hf)) hx
    rw [hn]

theorem flatMap {f : ι → List ι} :
    ∀ {ms : List ι}, Ordered lo hi ms →
      (∀ m ∈ ms, Ordered lo hi (f m) ∧ ∀ n ∈ f m, lo m ≤ lo n ∧ hi n ≤ hi m) →
      Ordered lo hi (ms.flatMap f)
  | [], _, _ => nil
  | m :: ms, h, hf => by
      obtain ⟨_, hm, ho⟩ := cons_iff.mp h
      rw [flatMap_cons]
      refine append_iff.mpr ⟨(hf m mem_cons_self).1,
        flatMap ho (fun n hn => hf n (mem_cons_of_mem _ hn)), fun k hk n hn => ?_⟩
      obtain ⟨m', hm', hn'⟩ := mem_flatMap.mp hn
      calc hi k ≤ hi m := ((hf m mem_cons_self).2 k hk).2
        _ ≤ lo m' := hm m' hm'
        _ ≤ lo n := ((hf m' (mem_cons_of_mem _ hm')).2 n hn').1

/-- A list sorted by `lo` whose intervals are non-empty and pairwise disjoint is
ordered.  This is how an insertion is checked: neither property depends on where
the new entry was put. -/
theorem of_sorted {ms : List ι} (hne : ∀ m ∈ ms, lo m < hi m)
    (hs : ms.Pairwise (fun m n => lo m ≤ lo n))
    (hd : ms.Pairwise (fun m n => hi m ≤ lo n ∨ hi n ≤ lo m)) : Ordered lo hi ms := by
  induction ms with
  | nil => exact nil
  | cons m ms ih =>
    obtain ⟨hs₁, hs₂⟩ := pairwise_cons.mp hs
    obtain ⟨hd₁, hd₂⟩ := pairwise_cons.mp hd
    refine cons_iff.mpr ⟨hne m mem_cons_self, fun n hn => ?_,
      ih (fun n hn => hne n (mem_cons_of_mem _ hn)) hs₂ hd₂⟩
    rcases hd₁ n hn with h | h
    · exact h
    · have hn' := hne n (mem_cons_of_mem _ hn)
      exact absurd (lt_of_lt_of_le hn' (h.trans (hs₁ n hn))) (lt_irrefl _)

theorem sortIn {r : ι → ι → Prop} [DecidableRel r] (hr : ∀ m n, r m n ↔ lo m ≤ lo n)
    {ms : List ι} {m : ι} (h : Ordered lo hi ms) (hm : lo m < hi m)
    (hd : ∀ n ∈ ms, hi n ≤ lo m ∨ hi m ≤ lo n) : Ordered lo hi ((ms ++ [m]).insertionSort r) := by
  have : Std.Total r := ⟨fun x y => by rw [hr, hr]; exact le_total _ _⟩
  have : IsTrans ι r := ⟨fun x y z hxy hyz => by rw [hr] at *; exact hxy.trans hyz⟩
  have hperm := perm_insertionSort r (ms ++ [m])
  refine of_sorted ?_ ?_ ?_
  · intro n hn
    rcases mem_append.mp (hperm.mem_iff.mp hn) with hn | hn
    · exact h.nonempty n hn
    · rw [mem_singleton.mp hn]; exact hm
  · exact (pairwise_insertionSort r _).imp (fun {x y} hxy => (hr x y).mp hxy)
  refine (hperm.pairwise_iff (fun {x y} hxy => hxy.symm)).mpr ?_
  refine pairwise_append.mpr ⟨h.apart.imp Or.inl, pairwise_singleton _ _, ?_⟩
  intro n hn k hk
  rw [mem_singleton.mp hk]
  exact hd n hn

theorem eq_of_mem_iff {ms ns : List ι} (hm : Ordered lo hi ms) (hn : Ordered lo hi ns)
    (h : ∀ k, k ∈ ms ↔ k ∈ ns) : ms = ns := by
  have hnodup : ∀ {ks : List ι}, Ordered lo hi ks → ks.Nodup := by
    intro ks hk
    refine hk.apart.imp_of_mem ?_
    rintro k k' hmem _ hkk rfl
    exact absurd (hk.nonempty k hmem) (not_lt.mpr hkk)
  have hperm := (perm_ext_iff_of_nodup (hnodup hm) (hnodup hn)).mpr h
  refine hperm.eq_of_pairwise ?_ hm.apart hn.apart
  intro k k' hk hk' h₁ h₂
  exact absurd ((hm.nonempty k hk).trans_le (h₁.trans (hn.nonempty k' hk').le))
    (not_lt.mpr h₂)

/-- Not the last one: there is one behind it. -/
theorem mem_dropLast_iff {ms : List ι} (h : Ordered lo hi ms) {m : ι} :
    m ∈ ms.dropLast ↔ m ∈ ms ∧ ∃ n ∈ ms, lo m < lo n := by
  constructor
  · intro hm
    refine ⟨dropLast_subset ms hm, ?_⟩
    have hne : ms ≠ [] := by
      rintro rfl
      exact absurd hm not_mem_nil
    rw [← dropLast_append_getLast hne] at h
    obtain ⟨hinit, _, hcross⟩ := append_iff.mp h
    exact ⟨ms.getLast hne, getLast_mem hne,
      (hinit.nonempty m hm).trans_le (hcross m hm _ (mem_singleton_self _))⟩
  rintro ⟨hm, n, hn, hlt⟩
  have hne : ms ≠ [] := ne_nil_of_mem hm
  rw [← dropLast_append_getLast hne] at h hm hn
  obtain ⟨hinit, hlast, hcross⟩ := append_iff.mp h
  rcases mem_append.mp hm with hm | hm
  · exact hm
  -- nothing is behind the last one
  rw [mem_singleton] at hm
  rcases mem_append.mp hn with hn | hn
  · have hle := hcross n hn m (by rw [hm]; exact mem_singleton_self _)
    exact absurd hlt (not_lt.mpr ((hinit.nonempty n hn).le.trans hle))
  · rw [mem_singleton.mp hn, hm] at hlt
    exact absurd hlt (lt_irrefl _)

end Ordered

end IshGo.Lib
