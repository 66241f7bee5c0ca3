/-
# `IshGo.Kernel.Holes` — `FindHole` finds a hole exactly if there is one

The two candidates and the scan start at or above the first page, as long as `nextHint` does; and no call takes
it below, not even one that breaks the table.
-/
import IshGo.Kernel.Lookup
import IshGo.Kernel.Protect

namespace IshGo.I386.AddressSpace

open Lib Kernel

/-- The tables met on a run of any calls from `NewAddressSpace(space)`. -/
inductive Met (space : U32) : AddressSpace → Prop
  | new : Met space (new space)
  | call {a : AddressSpace} (c : Call) : Met space a → Met space (a.exec c)
  | findHole {a a' : AddressSpace} {size hint hole : U32} :
      Met space a → a.findHole size hint = .ok (hole, a') → Met space a'

structure Roomy (a : AddressSpace) : Prop where
  hint : 0x1000 ≤ a.nextHint
  max : 0x1000 ≤ a.max
  ends : ∀ m ∈ a.mappings, m.endAddr ≤ a.max

section Roomy
variable {a a' : AddressSpace} {size hint hole : U32}

/-- Where the scan stops: where it started, or behind a mapping. -/
theorem holeScan_at : ∀ {ms : List Mapping} {cursor : U32},
    (holeScan size ms cursor).elim id id = cursor ∨ ∃ m ∈ ms, (holeScan size ms cursor).elim id id = m.endAddr
  | [], _ => .inl rfl
  | m :: ms, cursor => by
      unfold holeScan
      split
      · exact .inl rfl
      rcases @holeScan_at ms (if m.endAddr > cursor then m.endAddr else cursor) with h | ⟨n, hn, h⟩
      · rw [h]
        split
        · exact .inr ⟨m, List.mem_cons_self, rfl⟩
        · exact .inl rfl
      · exact .inr ⟨n, List.mem_cons_of_mem m hn, h⟩

theorem Roomy.inr_le (h : a.Roomy) (hscan : holeScan size a.mappings 0x1000 = .inr hole) : hole ≤ a.max := by
  rcases @holeScan_at size a.mappings 0x1000 with hat | ⟨m, hm, hat⟩ <;> rw [hscan] at hat <;> cases hat
  · exact h.max
  · exact h.ends m hm

theorem Roomy.findHole (h : a.Roomy) (hfind : a.findHole size hint = .ok (hole, a')) : 0x1000 ≤ hole ∧ a'.Roomy := by
  have hnext := h.hint
  have hlow : 0x1000 ≤ hole := (findHole_low hfind).resolve_right (BitVec.not_lt.mpr hnext)
  obtain ⟨rfl, -, hcases⟩ := findHole_cases hfind
  refine ⟨hlow, ?_, h.max, h.ends⟩
  show 0x1000 ≤ hole + size
  rcases hcases with ⟨c, -, htry⟩ | hscan | ⟨hscan, hroom⟩
  · have hfits := (tryCandidate_some htry).1.1
    bv_omega
  · obtain ⟨-, ⟨m, -, hfits⟩, -⟩ := holeScan_inl hscan
    bv_omega
  · have hle := h.inr_le hscan
    bv_omega

theorem Roomy.add (h : a.Roomy) {start : U32} {prot : U8} {name : String}
    (hadd : a.add start size prot name = .ok a') : a'.Roomy := by
  obtain ⟨hacc, -, rfl⟩ := add_ok hadd
  refine ⟨h.hint, h.max, fun m hm => ?_⟩
  rcases (mem_add hadd).mp hm with hm | rfl
  · exact h.ends m hm
  · obtain ⟨-, hend, hmax⟩ := accepted hacc
    show (start + size).toNat ≤ a.max.toNat
    omega

theorem Roomy.mapAt (h : a.Roomy) (addr : U32) (prot : U8) (name : String) :
    (a.mapAt addr size prot name).2.Roomy := by
  rcases mapAt_cases a addr size prot name with ⟨e, hmap, -⟩ | ⟨a', hmap, hadd⟩
  · rwa [hmap]
  · rw [hmap]
    exact h.add hadd

theorem Roomy.exec (h : a.Roomy) (c : Call) : (a.exec c).Roomy := by
  cases c with
  | add start size prot name =>
    cases hadd : a.add start size prot name with
    | error e => rwa [AddressSpace.exec, hadd]
    | ok a' =>
      rw [AddressSpace.exec, hadd]
      exact h.add hadd
  | remove start size =>
    rw [AddressSpace.exec, AddressSpace.remove]
    split
    · exact h
    refine ⟨h.hint, h.max, inPlace_every (fun m hm n hn => ?_) h.ends⟩
    unfold unmapPieces at hn
    split at hn
    · rwa [List.mem_singleton.mp hn]
    · rename_i hmeets
      rcases List.mem_append.mp hn with hn | hn <;> obtain ⟨-, rfl⟩ := List.mem_ite_nil_right.mp hn |>.imp_right
        List.mem_singleton.mp
      · exact BitVec.le_trans (BitVec.le_of_lt (BitVec.not_le.mp (not_or.mp hmeets).2)) hm
      · exact hm
  | protect start size prot =>
    cases hp : a.protect start size prot with
    | error e => rwa [AddressSpace.exec, hp]
    | ok a' =>
      rw [AddressSpace.exec, hp]
      obtain ⟨m, pre, post, hms, -, hstop, hmem⟩ := mem_protect hp
      have hend := protect_end hp
      obtain ⟨hlt, parts, -, rfl⟩ := protect_ok hp
      have hm := h.ends m (by simp [hms])
      refine ⟨h.hint, h.max, fun n hn => ?_⟩
      rcases (hmem n).mp hn with hn | hn | ⟨rfl, -⟩ | rfl | ⟨rfl, -⟩
      · exact h.ends n (by simp [hms, hn])
      · exact h.ends n (by simp [hms, hn])
      · show start.toNat ≤ a.max.toNat
        bv_omega
      · exact BitVec.le_trans hstop hm
      · exact hm
  | mapAnonymous addr size prot name =>
    rw [AddressSpace.exec, mapAnonymous]
    split
    · split
      · exact h
      · exact (h.findHole ‹_›).2.mapAt ..
    split
    · exact h
    split
    · exact h
    · exact h.mapAt ..

theorem Met.roomy {space : U32} (h : Met space a) : a.Roomy := by
  induction h with
  | new =>
    refine ⟨show (0x1000 : U32) ≤ 0x01000000 by decide, ?_, fun m hm => absurd hm List.not_mem_nil⟩
    show 0x1000 ≤ if space < 64 * 1024 then _ else space
    split <;> bv_omega
  | call c _ ih => exact ih.exec c
  | findHole _ hfind ih => exact (ih.findHole hfind).2

theorem Roomy.findHole_free (h : a.Roomy) (hwf : a.WellFormed) (hfind : a.findHole size hint = .ok (hole, a')) :
    a.FreeAt hole size := by
  obtain ⟨-, -, ⟨c, -, htry⟩ | hscan | ⟨hscan, hroom⟩⟩ := findHole_cases hfind
  · exact (tryCandidate_some htry).1
  · obtain ⟨-, ⟨m, hm, hfits⟩, hsides⟩ := holeScan_inl hscan
    have hmax := hwf.inside m hm
    exact ⟨by bv_omega, hsides hwf.table⟩
  · have hle := h.inr_le hscan
    exact ⟨by bv_omega, fun m hm => .inl ((holeScan_inr hscan).2.1 m hm)⟩

/-- On a page, if the mappings end on pages. -/
theorem findHole_aligned (hpages : ∀ m ∈ a.mappings, m.endAddr.toNat % 4096 = 0)
    (hfind : a.findHole size hint = .ok (hole, a')) : hole.toNat % 4096 = 0 := by
  obtain ⟨-, -, ⟨c, -, htry⟩ | hscan⟩ := findHole_cases hfind
  · have hpage : (c &&& ~~~0xfff).toNat = c.toNat - c.toNat % 4096 := @toNat_and_not_mask 32 c 12 (by decide)
    unfold tryCandidate at htry
    dsimp only at htry
    split at htry
    · cases htry
    split at htry <;> cases htry
    omega
  · have hat : (holeScan size a.mappings 0x1000).elim id id = hole := by
      rcases hscan with hscan | ⟨hscan, -⟩ <;> rw [hscan] <;> rfl
    rcases @holeScan_at size a.mappings 0x1000 with h | ⟨m, hm, h⟩ <;> rw [hat] at h <;> subst h
    · rfl
    · exact hpages m hm

end Roomy

/-- **The search for a hole.**  What it finds is free and above the first page, it fails exactly if there is no
such range, and so does `MapAnonymous` without an address, which adds one mapping and nothing else. -/
theorem hole_search {space : U32} {a : AddressSpace} (hmet : Met space a) (hwf : a.WellFormed) {size : U32}
    (hsize : size ≠ 0) (hint : U32) :
    (∀ hole a', a.findHole size hint = .ok (hole, a') → 0x1000 ≤ hole ∧ a.FreeAt hole size ∧
      ((∀ m ∈ a.mappings, m.start.toNat % 4096 = 0 ∧ m.endAddr.toNat % 4096 = 0) → hole.toNat % 4096 = 0)) ∧
    ((∃ e, a.findHole size hint = .error e) ↔ ¬ ∃ x, 0x1000 ≤ x ∧ a.FreeAt x size) ∧
    ∀ (prot : U8) (name : String),
      ((∃ mapped a', a.mapAnonymous 0 size prot name = (.ok mapped, a')) ↔ ∃ x, 0x1000 ≤ x ∧ a.FreeAt x size) ∧
      ∀ mapped a', a.mapAnonymous 0 size prot name = (.ok mapped, a') → 0x1000 ≤ mapped ∧ a.FreeAt mapped size ∧
        a'.max = a.max ∧ a'.mappings.Perm (⟨mapped, mapped + size, prot, name⟩ :: a.mappings) := by
  have hroomy := hmet.roomy
  have hanon {prot name mapped a'} (h : a.mapAnonymous 0 size prot name = (.ok mapped, a')) :
      0x1000 ≤ mapped ∧ a.FreeAt mapped size ∧
        a'.max = a.max ∧ a'.mappings.Perm (⟨mapped, mapped + size, prot, name⟩ :: a.mappings) := by
    obtain ⟨next, hadd, -⟩ := mapAnonymous_ok h
    have hfree : { a with nextHint := next }.FreeAt mapped size := freeAt_of_add hadd
    refine ⟨(mapAnonymous_low h).resolve_right (BitVec.not_lt.mpr hroomy.hint), hfree, ?_⟩
    obtain ⟨-, -, rfl⟩ := add_ok hadd
    exact ⟨rfl, (List.perm_insertionSort _ _).trans (List.perm_append_singleton _ _)⟩
  refine ⟨fun hole a' hfind => ?_, ⟨fun ⟨e, he⟩ ⟨x, hlow, hfree⟩ => ?_, fun hnone => ?_⟩, fun prot name => ⟨⟨?_, ?_⟩,
    fun mapped a' h => hanon h⟩⟩
  · exact ⟨(hroomy.findHole hfind).1, hroomy.findHole_free hwf hfind, fun hpages =>
      findHole_aligned (fun m hm => (hpages m hm).2) hfind⟩
  · obtain ⟨hole, next, hfind, -⟩ := hwf.findHole_complete hfree hsize (.inl hlow) hint
    rw [he] at hfind
    cases hfind
  · cases hfind : a.findHole size hint with
    | error e => exact ⟨e, rfl⟩
    | ok r => exact absurd ⟨r.1, (hroomy.findHole hfind).1, hroomy.findHole_free hwf hfind⟩ hnone
  · rintro ⟨mapped, a', h⟩
    exact ⟨mapped, (hanon h).1, (hanon h).2.1⟩
  · rintro ⟨x, hlow, hfree⟩
    exact hwf.mapAnonymous_complete hfree hsize (.inl hlow) prot name

/-- Three mappings in 64 KiB, with two pages free between the first two and one page before the last. -/
def gaps : AddressSpace :=
  (((new 0x10000).exec (.add 0x1000 0x2000 3 "")).exec (.add 0x5000 0x3000 3 "")).exec (.add 0x9000 0x7000 3 "")

theorem gaps_wellFormed : gaps.WellFormed :=
  ((((@Reached.new 0x10000).call (.add ..) trivial).call (.add ..) trivial).call (.add ..) trivial).wellFormed

/-- Two pages are found between the mappings, and three are nowhere. -/
theorem hole_search_gaps :
    (∃ a', gaps.mapAnonymous 0 0x2000 3 "" = (.ok 0x3000, a') ∧
      a'.mappings.Perm (⟨0x3000, 0x5000, 3, ""⟩ :: gaps.mappings)) ∧
    ¬ ∃ x, 0x1000 ≤ x ∧ gaps.FreeAt x 0x3000 := by
  have hmet : Met 0x10000 gaps := .call _ (.call _ (.call _ .new))
  constructor
  · have hfound : gaps.mapAnonymous 0 0x2000 3 "" = (.ok 0x3000, (gaps.mapAnonymous 0 0x2000 3 "").2) := by
      decide +kernel
    have hmapped := ((hole_search hmet gaps_wellFormed (show (0x2000 : U32) ≠ 0 by decide) 0).2.2 3 "").2 _ _ hfound
    exact ⟨_, hfound, hmapped.2.2.2⟩
  · refine (hole_search hmet gaps_wellFormed (by decide) 0).2.1.mp ⟨.noGuestMappingHole 0x3000, ?_⟩
    decide +kernel

end IshGo.I386.AddressSpace
