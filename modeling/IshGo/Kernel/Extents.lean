/-
# `IshGo.Kernel.Extents` — the lengths and places that mapping calls ask for

`PageLength` rounds up, except for the last length that it accepts, which it rounds to `0`
(`page_rounding_iff`).  `munmap` and `mprotect` refuse an empty range and so act on the range
they were asked for; `mremap` shrinks to nothing and returns the address all the same.
-/
import IshGo.Kernel.Remap

namespace IshGo.I386.AddressSpace

open Lib List

variable {a a' : AddressSpace} {start size x : U32} {m : Mapping}
variable {newLength oldLength : U32} {p : U8}

theorem mappingAt_ne_none (hm : m ∈ a.mappings) (hx : m.Covers x) : a.mappingAt x ≠ none := by
  intro h
  have := find?_eq_none.mp h m hm
  exact this (decide_eq_true hx)

theorem WellFormed.remove_gone (h : a.WellFormed) (hrem : a.remove start size = .ok a')
    (hx : InRange start size x) : a'.mappingAt x = none := by
  have hacc := Kernel.remove_accepted hrem
  by_cases hsplit : a.SplitsInner start size
  · obtain ⟨pre, n, post, hms, _, hleft, _, heq⟩ := remove_eq_overtaken h hacc hsplit
    obtain ⟨_, hend, _⟩ := accepted hacc
    obtain ⟨_, _, hpre⟩ := Ordered.append_iff.mp (hms ▸ h.table)
    rw [heq] at hrem
    cases hrem
    refine mappingAt_eq_none fun k hk hcov => ?_
    unfold InRange at hx
    unfold Mapping.Covers at hcov
    simp only [mem_append, mem_cons, mem_replicate] at hk
    rcases hk with hk | rfl | rfl | ⟨_, rfl⟩
    · have := hpre k hk n mem_cons_self
      bv_omega
    all_goals
      dsimp only at hcov
      bv_omega
  · rw [remove_eq_flatMap hacc hsplit] at hrem
    cases hrem
    exact (h.unmapsExactly hacc).gone x hx

theorem WellFormed.remove_below (h : a.WellFormed) (hrem : a.remove start size = .ok a')
    (hat : a.mappingAt x = some m) (hx : x < start) : a'.mappingAt x ≠ none := by
  have hacc := Kernel.remove_accepted hrem
  by_cases hsplit : a.SplitsInner start size
  · obtain ⟨pre, n, post, hms, _, hleft, hright, heq⟩ := remove_eq_overtaken h hacc hsplit
    obtain ⟨_, hend, _⟩ := accepted hacc
    obtain ⟨_, hpost, _⟩ := Ordered.append_iff.mp (hms ▸ h.table)
    obtain ⟨hm, hcov⟩ := h.mappingAt_iff.mp hat
    rw [heq] at hrem
    cases hrem
    rw [hms, mem_append, mem_cons] at hm
    rcases hm with hm | rfl | hm
    · exact mappingAt_ne_none (mem_append_left _ hm) hcov
    · exact mappingAt_ne_none (mem_append_right _ mem_cons_self) ⟨hcov.1, hx⟩
    · have := (Ordered.cons_iff.mp hpost).2.1 m hm
      unfold Mapping.Covers at hcov
      bv_omega
  · rw [remove_eq_flatMap hacc hsplit] at hrem
    cases hrem
    have hkept := (h.unmapsExactly hacc).kept x (by unfold InRange; bv_omega)
    intro hnone
    rw [seen, seen, hat, hnone] at hkept
    cases hkept

end IshGo.I386.AddressSpace

namespace IshGo.Kernel

open I386 I386.AddressSpace

variable {a a' : AddressSpace} {m : Mapping} {mem : Memory} {addr flags length newAddr newSize oldAddr oldSize size : U32}

/-! ## Lengths -/

/-- `length` rounded up to whole pages, in exact arithmetic. -/
structure Rounded (length size : U32) : Prop where
  pages : 4096 ∣ size.toNat
  le : length.toNat ≤ size.toNat
  lt : size.toNat < length.toNat + 4096

theorem pageLength_rounded_iff (h : pageLength length = some size) :
    Rounded length size ↔ length ≠ 0xfffff001 := by
  rcases pageLength_spec h with ⟨rfl, rfl⟩ | ⟨hne, hsize, _⟩
  · exact iff_of_false (fun hr => absurd hr.le (by decide)) (not_not.mpr rfl)
  · refine iff_of_true ?_ hne
    unfold roundUp at hsize
    exact ⟨⟨_, by rw [hsize, Nat.mul_comm]⟩, by omega, by omega⟩

theorem pageLength_ne_zero (h : pageLength length = some 0) : length = 0xfffff001 := by
  rcases pageLength_spec h with ⟨hlast, _⟩ | ⟨_, _, hpage⟩
  · exact hlast
  · exact absurd hpage (by decide)

theorem rounded_of_ne_zero (h : pageLength length = some size) (hne : size ≠ 0) : Rounded length size := by
  refine (pageLength_rounded_iff h).mpr ?_
  rintro rfl
  cases h
  exact hne rfl

theorem munmap_rounded (h : munmap a addr length = (0, a')) :
    ∃ size, Rounded length size ∧ a.remove addr size = .ok a' := by
  unfold munmap at h
  split at h
  · cases h
  rename_i size hsize
  split at h
  · cases h
  split at h
  · cases h
  · rename_i space' hrem
    cases h
    exact ⟨size, rounded_of_ne_zero hsize fun h0 => remove_accepted hrem (Or.inl h0), hrem⟩

theorem mprotect_rounded (h : mprotect a addr length flags = (0, a')) :
    ∃ size, Rounded length size ∧ a.protect addr size (prot flags) = .ok a' := by
  unfold mprotect at h
  split at h
  · cases h
  rename_i size hsize
  split at h
  · cases h
  split at h
  · cases h
  rename_i space' hprot
  cases h
  refine ⟨size, rounded_of_ne_zero hsize ?_, hprot⟩
  rintro rfl
  rw [AddressSpace.protect, if_pos (Or.inl rfl)] at hprot
  cases hprot

/-- The call reports success at the old address, and nothing is mapped there. -/
def Vanished (oldAddr oldLength : U32) (r : U32 × Memory) : Prop :=
  r.1 = oldAddr ∧ ∀ x, InRange oldAddr oldLength x → r.2.space.mappingAt x = none

theorem vanished_iff (h : mem.space.WellFormed) {r : U32 × Memory} (hold : pageLength oldLength = some oldSize)
    (hnew : pageLength newLength = some newSize)
    (hfits : oldAddr.toNat + oldSize.toNat ≤ mem.space.max.toNat)
    (hat : mem.space.mappingAt oldAddr = some m) (hr : Resized mem m oldAddr oldSize newSize r) :
    Vanished oldAddr oldLength r ↔ newLength = 0xfffff001 ∧ oldLength ≠ 0xfffff001 := by
  have hfirst : InRange oldAddr oldLength oldAddr := by
    have : oldLength ≠ 0 := by
      rintro rfl
      cases hold
    unfold InRange
    bv_omega
  constructor
  · rintro ⟨hplace, hgone⟩
    have hnone := hgone oldAddr hfirst
    cases hr with
    | same =>
      rw [hat] at hnone
      cases hnone
    | shrunk hlt hrem =>
      have hzero : newSize = 0 := by
        by_contra hne
        exact h.remove_below hrem hat (by bv_omega) hnone
      subst hzero
      refine ⟨pageLength_ne_zero hnew, ?_⟩
      rintro rfl
      cases hold
      exact absurd hlt (by decide)
    | grown _ hadd hw =>
      rw [(Memory.writeBytes_shape hw).2.1] at hnone
      obtain ⟨hm, hcov⟩ := h.mappingAt_iff.mp hat
      exact absurd hnone (mappingAt_ne_none ((mem_add hadd).mpr (Or.inl hm)) hcov)
    | @moved next _ _ _ _ _ hlt hadd =>
      have hfree : mem.space.mappingAt oldAddr = none :=
        (h.nextHint next).mappingAt_before_add hadd (by rw [← hplace]; unfold InRange; bv_omega)
      rw [hat] at hfree
      cases hfree
  · rintro ⟨rfl, hne⟩
    obtain rfl : newSize = 0 := (Option.some.inj hnew).symm
    have hle := ((pageLength_rounded_iff hold).mpr hne).le
    cases hr with
    | same hsame =>
      unfold InRange at hfirst
      bv_omega
    | shrunk hlt hrem =>
      refine ⟨rfl, fun x hx => h.remove_gone hrem ?_⟩
      unfold InRange at hx ⊢
      bv_omega
    | grown | moved => bv_omega

/-- **Page rounding.**  `PageLength` is right for every length but one, `munmap` and `mprotect` for
all of them.  A successful `mremap` acts on the lengths rounded up unless one of them is that one,
and drops the whole old range exactly if the new length is that one and the old one is not. -/
theorem page_rounding_iff (mem : Memory) (h : mem.space.WellFormed)
    (addr length newLength flags newAddr : U32) :
    ((∀ size, pageLength length = some size → Rounded length size) ↔ length ≠ 0xfffff001) ∧
    (∀ a', munmap mem.space addr length = (0, a') →
      ∃ size, Rounded length size ∧ mem.space.remove addr size = .ok a') ∧
    (∀ a', mprotect mem.space addr length flags = (0, a') →
      ∃ size, Rounded length size ∧ mem.space.protect addr size (prot flags) = .ok a') ∧
    (let r := mremap mem addr length newLength flags newAddr
     ¬ IsErrno r.1 → ∃ m oldSize newSize, Resized mem m addr oldSize newSize r ∧
      (Rounded length oldSize ↔ length ≠ 0xfffff001) ∧
      (Rounded newLength newSize ↔ newLength ≠ 0xfffff001) ∧
      (Vanished addr length r ↔ newLength = 0xfffff001 ∧ length ≠ 0xfffff001)) := by
  refine ⟨⟨?_, fun hne size hsize => (pageLength_rounded_iff hsize).mpr hne⟩,
    fun a' => munmap_rounded, fun a' => mprotect_rounded, fun hok => ?_⟩
  · rintro hall rfl
    exact (pageLength_rounded_iff rfl).mp (hall 0 rfl) rfl
  obtain ⟨oldSize, newSize, m, hold, hnew, hfits, hat, _, _, hresized⟩ :=
    mremap_cases h addr length newLength flags newAddr hok
  exact ⟨m, oldSize, newSize, hresized, pageLength_rounded_iff hold, pageLength_rounded_iff hnew,
    vanished_iff h hold hnew hfits hat hresized⟩

theorem page_rounding_iff_twoPages :
    ∃ m oldSize newSize, Resized guarded.mem m 0x1000 oldSize newSize
        (mremap guarded.mem 0x1000 0x2001 0x1001 0 0) ∧
      Rounded 0x2001 oldSize ∧ Rounded 0x1001 newSize := by
  obtain ⟨m, oldSize, newSize, hr, hold, hnew, _⟩ :=
    (page_rounding_iff guarded.mem twoRegions_wellFormed 0x1000 0x2001 0x1001 0 0).2.2.2
      (by decide +kernel)
  exact ⟨m, oldSize, newSize, hr, hold.mpr (by decide), hnew.mpr (by decide)⟩

theorem mremap_to_nothing :
    let r := mremap guarded.mem 0x1000 0x3000 0xfffff001 0 0
    pageLength 0xfffff001 = some 0 ∧ guarded.mem.space.mappingAt 0x1000 ≠ none ∧
      r.1 = 0x1000 ∧ ∀ x, InRange 0x1000 0x3000 x → r.2.space.mappingAt x = none := by
  have hrem : guarded.mem.space.remove 0x1000 0x3000 = .ok _ := rfl
  exact ⟨rfl, by decide, by decide +kernel, fun x hx => twoRegions_wellFormed.remove_gone hrem hx⟩

/-! ## Places -/

theorem mappingAt_add_new {start x : U32} {name : String}
    (hadd : a.add start size p name = .ok a') (hx : InRange start size x) :
    a'.mappingAt x = some ⟨start, start + size, p, name⟩ := by
  obtain ⟨hacc, hfree, _⟩ := add_ok hadd
  have hcov : Mapping.Covers ⟨start, start + size, p, name⟩ x := (covers_new hacc).mpr hx
  cases hat : a'.mappingAt x with
  | none => exact absurd hat (mappingAt_ne_none ((mem_add hadd).mpr (Or.inr rfl)) hcov)
  | some n =>
    obtain ⟨hn, hn'⟩ := mappingAt_some hat
    rcases (mem_add hadd).mp hn with hn | rfl
    · have := hfree n hn
      unfold Mapping.Covers at hcov hn'
      bv_omega
    · rfl

/-- The range is one mapping, of the kind that `mmap2` makes. -/
def MappedAt (mem : Memory) (start size : U32) (p : U8) : Prop :=
  ∀ x, InRange start size x → mem.space.mappingAt x = some ⟨start, start + size, p, "mmap2"⟩

/-- A search that does not start on the first page does not end there. -/
theorem mapAnonymous_ne_zero (hnext : 0x1000 ≤ a.nextHint)
    (size : U32) (p : U8) (name : String) : (a.mapAnonymous 0 size p name).1 ≠ .ok 0 := by
  intro hmap
  rcases AddressSpace.mapAnonymous_low (Prod.ext hmap rfl) with hlow | hlow <;> bv_omega

theorem mapAndFill_ne_zero (mem : Memory) (hnext : 0x1000 ≤ mem.space.nextHint)
    (length : U32) (p : U8) (data : List U8) (restore : Memory → Memory) :
    (mapAndFill mem 0 length p data restore).1 ≠ 0 := by
  have hne := mapAnonymous_ne_zero hnext length p "mmap2"
  unfold mapAndFill
  dsimp only
  split
  · exact (by decide : enomem ≠ 0)
  rename_i mapped hmap
  split
  · exact (by decide : efault ≠ 0)
  · rintro rfl
    exact hne hmap

theorem mapFixed_place {data : List U8} :
    let r := mapFixed mem addr length p data
    ¬ IsErrno r.1 → MappedAt r.2 r.1 length p ∧ (addr ≠ 0 → r.1 = addr) ∧
      (mem.space.WellFormed → 0x1000 ≤ mem.space.nextHint → addr = 0 → r.1 ≠ 0) := by
  dsimp only
  unfold mapFixed
  split
  · exact fun hok => absurd isErrno_enomem hok
  cases hread : mem.readBytes addr length with
  | error e => exact fun hok => absurd isErrno_efault hok
  | ok oldData =>
    cases hrem : mem.space.remove addr length with
    | error e => exact fun hok => absurd isErrno_efault hok
    | ok space =>
      dsimp only
      rcases mapAndFill_cases { mem with space := space } addr length p data
          (restoreFixed mem.space.mappings addr oldData) with
        ⟨next, mapped, space', mem', hadd, hw, haddr, heq⟩ | ⟨e, mem', he, heq, _⟩
      · rw [heq]
        intro _
        refine ⟨fun x hx => ?_, haddr, ?_⟩
        · rw [(Memory.writeBytes_shape hw).2.1]
          exact mappingAt_add_new hadd hx
        rintro h hnext rfl
        have hacc := remove_accepted hrem
        obtain ⟨hpos, hend, _⟩ := accepted hacc
        -- nothing is to the left of `0`
        rw [remove_eq_flatMap hacc (by rintro ⟨n, _, hn, _⟩; bv_omega)] at hrem
        cases hrem
        have hne := mapAndFill_ne_zero
          { mem with space := { mem.space with mappings := mem.space.mappings.flatMap (unmapPieces 0 (0 + length)) } }
          hnext length p data (restoreFixed mem.space.mappings 0 oldData)
        rwa [heq] at hne
      · rw [heq]
        exact fun hok => absurd he hok

theorem mmap2_fixed (readAt : ReadAt) (s : KState) (addr length linuxProt : U32)
    (hfixed : flags &&& 0x10 ≠ 0) (fd : Int) (pageOffset : U32) :
    let s' := s.mmap2 readAt addr length linuxProt flags fd pageOffset
    ¬ IsErrno (s'.cpu.regs EAX) → ∃ data,
      mapFixed s.mem addr (pageAlignUp length) (prot linuxProt) data = (s'.cpu.regs EAX, s'.mem) := by
  intro s' hok
  obtain ⟨s₁, -, -, ⟨e, he, heq⟩ | ⟨-, -, data, heq⟩⟩ :=
    mmap2_cases readAt s addr length linuxProt flags fd pageOffset
  · refine absurd ?_ hok
    rw [show s' = _ from heq]
    exact he
  · refine ⟨data, ?_⟩
    rw [show s' = _ from heq, decide_eq_true hfixed]
    rfl

theorem resize_place (hfixed : flags &&& 2 ≠ 0) :
    let r := resize mem m oldAddr oldSize newSize flags newAddr
    ¬ IsErrno r.1 → if StaysPut mem m oldAddr oldSize newSize then r.1 = oldAddr
      else (newAddr ≠ 0 → r.1 = newAddr) ∧
        (mem.space.WellFormed → 0x1000 ≤ mem.space.nextHint → newAddr = 0 → r.1 ≠ 0) := by
  intro r hok
  have hplace := resize_ok hok
  split at hplace
  · rwa [if_pos ‹_›]
  rename_i hmove
  rw [if_neg hmove]
  obtain ⟨-, hmap⟩ := hplace
  obtain ⟨_, _, htarget⟩ := mapAnonymous_ok (Prod.ext hmap rfl)
  refine ⟨htarget, ?_⟩
  rintro h hnext rfl hzero
  rw [growInPlace_keeps h hmove] at hmap
  exact mapAnonymous_ne_zero hnext _ _ _ (hmap.trans (congrArg _ hzero))

theorem mremap_resize :
    let r := mremap mem oldAddr oldLength newLength flags newAddr
    ¬ IsErrno r.1 → ∃ m oldSize newSize, mem.space.mappingAt oldAddr = some m ∧
      pageLength oldLength = some oldSize ∧ pageLength newLength = some newSize ∧
      r = resize mem m oldAddr oldSize newSize flags newAddr := by
  dsimp only
  unfold mremap
  split
  · rename_i oldSize newSize hold hnew
    split
    · exact fun hok => absurd isErrno_einval hok
    split
    · exact fun hok => absurd isErrno_einval hok
    rename_i m hat
    dsimp only
    split
    · exact fun hok => absurd isErrno_einval hok
    · exact fun _ => ⟨m, oldSize, newSize, hat, hold, hnew, rfl⟩
  · exact fun hok => absurd isErrno_einval hok

/-- **Fixed placement.**  `MAP_FIXED` is honoured unless the address is `0`, and `MREMAP_FIXED`
unless it is `0` or the mapping stays put somewhere else.  Address `0` sets off a search for a
hole, which comes upon `0` only from a hint on the first page. -/
theorem fixed_placement_iff (readAt : ReadAt) (s : KState) (addr length linuxProt flags : U32)
    (fd : Int) (pageOffset oldLength newLength newAddr : U32) :
    (let s' := s.mmap2 readAt addr length linuxProt flags fd pageOffset
     let r := s'.cpu.regs EAX
     flags &&& 0x10 ≠ 0 → ¬ IsErrno r →
      (r = addr ∧ MappedAt s'.mem addr (pageAlignUp length) (prot linuxProt) ↔ addr ≠ 0 ∨ r = 0) ∧
      (s.mem.space.WellFormed → 0x1000 ≤ s.mem.space.nextHint → addr = 0 → r ≠ 0)) ∧
    (let r := (mremap s.mem addr oldLength newLength flags newAddr).1
     flags &&& 2 ≠ 0 → ¬ IsErrno r → ∃ m oldSize newSize,
      s.mem.space.mappingAt addr = some m ∧ pageLength oldLength = some oldSize ∧
      pageLength newLength = some newSize ∧
      if StaysPut s.mem m addr oldSize newSize then r = newAddr ↔ addr = newAddr
      else (r = newAddr ↔ newAddr ≠ 0 ∨ r = 0) ∧
        (s.mem.space.WellFormed → 0x1000 ≤ s.mem.space.nextHint → newAddr = 0 → r ≠ 0)) := by
  -- honoured at every address but `0`, and there if that is what was found
  have hexact {r x : U32} (h : x ≠ 0 → r = x) : r = x ↔ x ≠ 0 ∨ r = 0 := by
    by_cases hx : x = 0
    · rw [hx]
      exact ⟨Or.inr, fun hr => hr.elim (absurd rfl) id⟩
    · exact iff_of_true (h hx) (Or.inl hx)
  refine ⟨fun hfixed hok => ?_, fun hfixed hok => ?_⟩
  · obtain ⟨data, hr⟩ := mmap2_fixed readAt s addr length linuxProt hfixed fd pageOffset hok
    obtain ⟨hmapped, hplace, hzero⟩ := mapFixed_place (by rw [hr]; exact hok)
    rw [hr] at hmapped hplace hzero
    dsimp only at hmapped hplace
    refine ⟨⟨fun hh => (hexact hplace).mp hh.1, fun hcond => ?_⟩, hzero⟩
    have heq := (hexact hplace).mpr hcond
    rw [heq] at hmapped
    exact ⟨heq, hmapped⟩
  obtain ⟨m, oldSize, newSize, hat, hold, hnew, hr⟩ := mremap_resize hok
  refine ⟨m, oldSize, newSize, hat, hold, hnew, ?_⟩
  have hplace := resize_place hfixed (hr ▸ hok)
  rw [← hr] at hplace
  split at hplace
  · rename_i hput
    rw [if_pos hput, hplace]
  · rename_i hput
    rw [if_neg hput]
    exact ⟨hexact hplace.1, hplace.2⟩

/-- `MAP_FIXED` over the page at `0` maps another one, and `MREMAP_FIXED` leaves a mapping that
shrinks where it is. -/
theorem fixed_elsewhere :
    let low := [⟨0, 0x1000, 3, "low"⟩, ⟨0x2000, 0x4000, 3, "a"⟩]
    let s := { guarded with mem := { guarded.mem with space := { twoRegions with mappings := low } } }
    let s' := s.mmap2 (fun _ _ _ _ => ([], none)) 0 0x1000 3 0x32 (-1) 0
    s'.cpu.regs EAX = 0x1000 ∧ s'.mem.space.mappingAt 0 = none ∧
      (mremap s.mem 0x2000 0x2000 0x1000 3 0x9000).1 = 0x2000 := by
  decide +kernel

end IshGo.Kernel
