/-
# `IshGo.Kernel.Protect` — what `mprotect` makes of a table depends on how it is cut

Two tables that map the same addresses with the same permissions (`SameProt`) can differ in how
the addresses are cut into mappings: growing the heap twice, or protecting a part of a region as
it already is, leaves neighbours where there could be one mapping.  `Protect` changes one mapping,
the one that contains the whole range, and refuses the range if there is none.
-/
import IshGo.Kernel.Unmap

namespace IshGo.I386.AddressSpace

open Lib Kernel List

def protAt (a : AddressSpace) (x : U32) : Option U8 := (a.mappingAt x).map Mapping.prot

structure SameProt (a b : AddressSpace) : Prop where
  max : a.max = b.max
  prot : ∀ x, a.protAt x = b.protAt x

def InOneMapping (a : AddressSpace) (start size : U32) : Prop :=
  ∃ m ∈ a.mappings, m.start ≤ start ∧ start + size ≤ m.endAddr

/-- The checks of `mprotect` and `Protect` that do not look at the mappings: the size in pages. -/
def protectSize (a : AddressSpace) (addr length : U32) : Option U32 :=
  match pageLength length with
  | none => none
  | some size =>
    if addr &&& 0xfff ≠ 0 ∨ size = 0 ∨ addr + size < addr ∨ addr + size > a.max then none
    else some size

/-! ## The loop -/

theorem protectLoop_isSome_iff {start stop : U32} {prot : U8} {ms : List Mapping} :
    (protectLoop start stop prot ms).isSome ↔ ∃ m ∈ ms, m.start ≤ start ∧ stop ≤ m.endAddr := by
  induction ms with
  | nil => simp [protectLoop]
  | cons m ms ih =>
    unfold protectLoop
    by_cases h : start ≥ m.start ∧ stop ≤ m.endAddr
    · rw [if_pos h]
      exact iff_of_true rfl ⟨m, mem_cons_self, h⟩
    rw [if_neg h, Option.isSome_map, ih]
    constructor
    · rintro ⟨n, hn, hin⟩
      exact ⟨n, mem_cons_of_mem m hn, hin⟩
    rintro ⟨n, hn, hin⟩
    rcases mem_cons.mp hn with rfl | hn
    · exact absurd hin h
    · exact ⟨n, hn, hin⟩

/-! ## Address by address -/

/-- What a lookup finds, seen through `f`. -/
theorem WellFormed.map_mappingAt_iff {β : Type} {f : Mapping → β} {a : AddressSpace} (h : a.WellFormed) {x : U32}
    {q : β} : (a.mappingAt x).map f = some q ↔ ∃ m ∈ a.mappings, m.Covers x ∧ f m = q := by
  rw [Option.map_eq_some_iff]
  constructor
  · rintro ⟨m, hm, hq⟩
    obtain ⟨hmem, hcovers⟩ := h.mappingAt_iff.mp hm
    exact ⟨m, hmem, hcovers, hq⟩
  · rintro ⟨m, hmem, hcovers, hq⟩
    exact ⟨m, h.mappingAt_iff.mpr ⟨hmem, hcovers⟩, hq⟩

theorem WellFormed.protAt_iff {a : AddressSpace} (h : a.WellFormed) {x : U32} {p : U8} :
    a.protAt x = some p ↔ ∃ m ∈ a.mappings, m.Covers x ∧ m.prot = p := h.map_mappingAt_iff

/-- The mappings after `Protect`: those that were there, and the parts of the one that was cut. -/
theorem mem_protect {a a' : AddressSpace} {start size : U32} {prot : U8}
    (hp : a.protect start size prot = .ok a') :
    ∃ m pre post, a.mappings = pre ++ m :: post ∧ m.start ≤ start ∧ start + size ≤ m.endAddr ∧
      ∀ n, n ∈ a'.mappings ↔ n ∈ pre ∨ n ∈ post ∨
        (n = { m with endAddr := start } ∧ start > m.start) ∨
        n = { m with start := start, endAddr := start + size, prot := prot } ∨
        (n = { m with start := start + size } ∧ start + size < m.endAddr) := by
  obtain ⟨-, parts, hparts, rfl⟩ := protect_ok hp
  obtain ⟨pre, m, post, hms, hstart, hstop, rfl⟩ := protectLoop_some hparts
  refine ⟨m, pre, post, hms, hstart, hstop, fun n => ?_⟩
  simp only [mem_append, mem_cons, mem_ite_nil_right, not_mem_nil, or_false]
  tauto

section Protect
variable {a a' : AddressSpace} {start size x : U32} {prot : U8}

theorem protect_end (hp : a.protect start size prot = .ok a') :
    (start + size).toNat = start.toNat + size.toNat := by
  have hlt := (protect_ok hp).1
  bv_omega

/-- Inside, the name is the one of the mapping that was cut. -/
theorem WellFormed.seen_protect_in (h : a.WellFormed) (hp : a.protect start size prot = .ok a')
    (hx : InRange start size x) : ∃ p name, a.seen x = some (p, name) ∧ a'.seen x = some (prot, name) := by
  have hend := protect_end hp
  obtain ⟨m, pre, post, hms, hstart, hstop, hmem⟩ := mem_protect hp
  obtain ⟨hlow, hhigh⟩ := hx
  have hnew : x < start + size := by
    show x.toNat < (start + size).toNat
    omega
  refine ⟨m.prot, m.name, h.map_mappingAt_iff.mpr ⟨m, by simp [hms], ⟨?_, ?_⟩, rfl⟩,
    (h.protect hp).map_mappingAt_iff.mpr ⟨_, (hmem _).mpr (.inr (.inr (.inr (.inl rfl)))), ⟨hlow, hnew⟩, rfl⟩⟩
  · exact BitVec.le_trans hstart hlow
  · exact Nat.lt_of_lt_of_le hnew hstop

theorem protAt_eq_seen (a : AddressSpace) (x : U32) : a.protAt x = (a.seen x).map Prod.fst := by
  unfold protAt seen
  rw [Option.map_map]
  rfl

theorem WellFormed.protAt_protect_in (h : a.WellFormed) (hp : a.protect start size prot = .ok a')
    (hx : InRange start size x) : a'.protAt x = some prot := by
  obtain ⟨p, name, -, hnew⟩ := h.seen_protect_in hp hx
  rw [protAt_eq_seen, hnew]
  rfl

theorem WellFormed.seen_protect_out (h : a.WellFormed) (hp : a.protect start size prot = .ok a')
    (hx : ¬ InRange start size x) : a'.seen x = a.seen x := by
  have hend := protect_end hp
  have hlt := (protect_ok hp).1
  obtain ⟨m, pre, post, hms, hstart, hstop, hmem⟩ := mem_protect hp
  have hm : m ∈ a.mappings := by simp [hms]
  refine Option.ext fun q => ?_
  unfold seen
  rw [h.map_mappingAt_iff, (h.protect hp).map_mappingAt_iff]
  unfold InRange at hx
  constructor
  · rintro ⟨n, hn, hcovers, hprot⟩
    rcases (hmem n).mp hn with hpre | hpost | ⟨rfl, -⟩ | rfl | ⟨rfl, -⟩
    · exact ⟨n, by simp [hms, hpre], hcovers, hprot⟩
    · exact ⟨n, by simp [hms, hpost], hcovers, hprot⟩
    · refine ⟨m, hm, ⟨hcovers.1, ?_⟩, hprot⟩
      have hlow : x < start := hcovers.2
      bv_omega
    · -- the middle part covers the range only
      have hlow : start ≤ x := hcovers.1
      have hhigh : x < start + size := hcovers.2
      exact absurd ⟨hlow, by rw [← hend]; exact hhigh⟩ hx
    · refine ⟨m, hm, ⟨?_, hcovers.2⟩, hprot⟩
      have hhigh : start + size ≤ x := hcovers.1
      bv_omega
  · rintro ⟨n, hn, hcovers, hprot⟩
    rw [hms, mem_append, mem_cons] at hn
    rcases hn with hpre | rfl | hpost
    · exact ⟨n, (hmem n).mpr (.inl hpre), hcovers, hprot⟩
    · obtain ⟨hlow, hhigh⟩ := hcovers
      by_cases hside : x < start
      · refine ⟨_, (hmem _).mpr (.inr (.inr (.inl ⟨rfl, ?_⟩))), ⟨hlow, hside⟩, hprot⟩
        bv_omega
      · have hbehind : start + size ≤ x := by bv_omega
        refine ⟨_, (hmem _).mpr (.inr (.inr (.inr (.inr ⟨rfl, ?_⟩)))), ⟨hbehind, hhigh⟩, hprot⟩
        bv_omega
    · exact ⟨n, (hmem n).mpr (.inr (.inl hpost)), hcovers, hprot⟩

theorem WellFormed.protAt_protect_out (h : a.WellFormed) (hp : a.protect start size prot = .ok a')
    (hx : ¬ InRange start size x) : a'.protAt x = a.protAt x := by
  rw [protAt_eq_seen, protAt_eq_seen, h.seen_protect_out hp hx]

/-- **`Protect` has its effect and no other.**  The range gets the permissions and keeps its names, every other
address is seen as before, and the table stays well-formed; a call that fails leaves the table alone. -/
theorem protect_exact (h : a.WellFormed) (start size : U32) (prot : U8) :
    (∀ a', a.protect start size prot = .ok a' → a'.WellFormed ∧
      (∀ x, InRange start size x → ∃ p name, a.seen x = some (p, name) ∧ a'.seen x = some (prot, name)) ∧
      ∀ x, ¬ InRange start size x → a'.seen x = a.seen x) ∧
    ∀ e, a.protect start size prot = .error e → a.exec (.protect start size prot) = a := by
  refine ⟨fun a' hp => ?_, fun e he => ?_⟩
  · exact ⟨h.protect hp, fun x hx => h.seen_protect_in hp hx, fun x hx => h.seen_protect_out hp hx⟩
  · rw [exec, he]
    rfl

end Protect

/-! ## `mprotect` -/

section Mprotect
variable {a b : AddressSpace} {addr length flags : U32}

theorem mprotect_cases (a : AddressSpace) (addr length flags : U32) :
    (mprotect a addr length flags = (einval, a) ∧
        ∀ size, a.protectSize addr length = some size → ¬ a.InOneMapping addr size) ∨
      ∃ size a', a.protectSize addr length = some size ∧ a.InOneMapping addr size ∧
        a.protect addr size (prot flags) = .ok a' ∧ mprotect a addr length flags = (0, a') := by
  unfold mprotect protectSize
  cases hlen : pageLength length with
  | none => exact .inl ⟨rfl, fun size hsize => by cases hsize⟩
  | some size =>
    dsimp only
    by_cases haligned : addr &&& 0xfff ≠ 0
    · rw [if_pos haligned, if_pos (.inl haligned)]
      exact .inl ⟨rfl, fun size hsize => by cases hsize⟩
    rw [if_neg haligned]
    by_cases hrange : size = 0 ∨ addr + size < addr ∨ addr + size > a.max
    · have hrefused : a.protect addr size (prot flags) = .error .invalidProtectRange := if_pos hrange
      rw [hrefused, if_pos (.inr hrange)]
      exact .inl ⟨rfl, fun size hsize => by cases hsize⟩
    rw [if_neg (not_or.mpr ⟨haligned, hrange⟩)]
    have hloop := @protectLoop_isSome_iff addr (addr + size) (prot flags) a.mappings
    cases hparts : protectLoop addr (addr + size) (prot flags) a.mappings with
    | none =>
      rw [hparts] at hloop
      have hrefused : a.protect addr size (prot flags) = .error .protectRangeNotMapped := by
        rw [protect, if_neg hrange, hparts]
      rw [hrefused]
      refine .inl ⟨rfl, fun size' hsize => ?_⟩
      cases hsize
      exact fun hin => Bool.false_ne_true (hloop.mpr hin)
    | some parts =>
      rw [hparts] at hloop
      have hok : a.protect addr size (prot flags) = .ok { a with mappings := parts } := by
        rw [protect, if_neg hrange, hparts]
      rw [hok]
      exact .inr ⟨size, _, rfl, hloop.mp rfl, hok, rfl⟩

/-- The checks look at `Max` only. -/
theorem protectSize_congr (h : a.max = b.max) : a.protectSize addr length = b.protectSize addr length := by
  unfold protectSize
  rw [h]

theorem mprotect_eq_zero_iff : (mprotect a addr length flags).1 = 0 ↔
    ∃ size, a.protectSize addr length = some size ∧ a.InOneMapping addr size := by
  rcases mprotect_cases a addr length flags with ⟨hrefused, hnone⟩ | ⟨size, a', hsize, hin, -, hok⟩
  · rw [hrefused]
    refine iff_of_false (show einval ≠ 0 by decide) ?_
    rintro ⟨size, hsize, hin⟩
    exact hnone size hsize hin
  · rw [hok]
    exact iff_of_true rfl ⟨size, hsize, hin⟩

/-- **`mprotect` and the cut of the table.**  On two well-formed tables that agree, the call
returns the same and leaves tables that agree, exactly if the range is inside one mapping of both
or of neither; and it succeeds exactly if the range is inside one mapping. -/
theorem mprotect_cut_iff (ha : a.WellFormed) (hb : b.WellFormed) (hsame : SameProt a b)
    (addr length flags : U32) :
    ((mprotect a addr length flags).1 = (mprotect b addr length flags).1 ∧
        SameProt (mprotect a addr length flags).2 (mprotect b addr length flags).2 ↔
      ∀ size, a.protectSize addr length = some size →
        (a.InOneMapping addr size ↔ b.InOneMapping addr size)) ∧
      ((mprotect a addr length flags).1 = 0 ↔
        ∃ size, a.protectSize addr length = some size ∧ a.InOneMapping addr size) := by
  refine ⟨?_, mprotect_eq_zero_iff⟩
  have hargs : a.protectSize addr length = b.protectSize addr length := protectSize_congr hsame.max
  have hne : einval ≠ 0 := by decide
  rcases mprotect_cases a addr length flags with ⟨hra, hna⟩ | ⟨size, a', hsa, hina, hpa, hoka⟩ <;>
    rcases mprotect_cases b addr length flags with ⟨hrb, hnb⟩ | ⟨size', b', hsb, hinb, hpb, hokb⟩
  · -- both are refused, and nothing changes
    rw [hra, hrb]
    refine iff_of_true ⟨rfl, hsame⟩ fun size hsize => ?_
    exact iff_of_false (hna size hsize) (hnb size (hargs ▸ hsize))
  · rw [hra, hokb]
    refine iff_of_false (fun h => hne h.1) fun h => ?_
    rw [← hargs] at hsb
    exact hna size' hsb ((h size' hsb).mpr hinb)
  · rw [hoka, hrb]
    refine iff_of_false (fun h => hne h.1.symm) fun h => ?_
    exact hnb size (hargs ▸ hsa) ((h size hsa).mp hina)
  -- both succeed, and change the same addresses
  rw [hargs, hsb] at hsa
  cases hsa
  rw [hoka, hokb]
  refine iff_of_true ⟨rfl, ?_, fun x => ?_⟩ fun size hsize => ?_
  · obtain ⟨-, _, -, rfl⟩ := protect_ok hpa
    obtain ⟨-, _, -, rfl⟩ := protect_ok hpb
    exact hsame.max
  · by_cases hx : InRange addr size x
    · rw [ha.protAt_protect_in hpa hx, hb.protAt_protect_in hpb hx]
    · rw [ha.protAt_protect_out hpa hx, hb.protAt_protect_out hpb hx]
      exact hsame.prot x
  · rw [hargs, hsb] at hsize
    cases hsize
    exact iff_of_true hina hinb

end Mprotect

/-! ## A region in one piece and in two -/

def onePiece : AddressSpace :=
  { mappings := [⟨0x1000, 0x3000, 3, "heap"⟩], max := 0x10000, nextHint := 0x01000000 }

/-- The same pages after `mprotect` of the first one, with the permissions it has. -/
def twoPieces : AddressSpace := (mprotect onePiece 0x1000 0x1000 3).2

theorem onePiece_wellFormed : onePiece.WellFormed := by
  refine wellFormed_iff.mpr ⟨⟨?_, pairwise_singleton _ _⟩, ?_⟩ <;> decide

theorem twoPieces_protect : onePiece.protect 0x1000 0x1000 3 = .ok twoPieces := by decide +kernel

theorem twoPieces_wellFormed : twoPieces.WellFormed := onePiece_wellFormed.protect twoPieces_protect

/-- The first page keeps its name. -/
theorem protect_exact_onePiece : twoPieces.seen 0x1800 = some (3, "heap") := by
  obtain ⟨p, name, hold, hnew⟩ := ((protect_exact onePiece_wellFormed 0x1000 0x1000 3).1 _ twoPieces_protect).2.1
    0x1800 (by unfold InRange; decide)
  rw [show onePiece.seen 0x1800 = some (3, "heap") by decide] at hold
  cases hold
  exact hnew

theorem onePiece_sameProt : SameProt onePiece twoPieces := by
  refine ⟨by decide, fun x => ?_⟩
  by_cases hx : InRange 0x1000 0x1000 x
  · rw [onePiece_wellFormed.protAt_protect_in twoPieces_protect hx, onePiece_wellFormed.protAt_iff]
    refine ⟨_, mem_singleton_self _, ⟨hx.1, ?_⟩, rfl⟩
    have hlt : x.toNat < 0x2000 := hx.2
    show x.toNat < 0x3000
    omega
  · rw [onePiece_wellFormed.protAt_protect_out twoPieces_protect hx]

/-- One page of the region is inside one mapping of both. -/
theorem mprotect_cut_iff_page :
    (mprotect onePiece 0x2000 0x1000 1).1 = 0 ∧
      SameProt (mprotect onePiece 0x2000 0x1000 1).2 (mprotect twoPieces 0x2000 0x1000 1).2 := by
  have hcut := mprotect_cut_iff onePiece_wellFormed twoPieces_wellFormed onePiece_sameProt 0x2000 0x1000 1
  have hone : ∀ size, onePiece.protectSize 0x2000 0x1000 = some size →
      onePiece.InOneMapping 0x2000 size ∧ twoPieces.InOneMapping 0x2000 size := by
    intro size hsize
    have hpage : onePiece.protectSize 0x2000 0x1000 = some 0x1000 := by decide
    rw [hpage] at hsize
    cases hsize
    exact ⟨⟨_, List.mem_singleton_self _, by decide⟩,
      ⟨⟨0x2000, 0x3000, 3, "heap"⟩, by decide, by decide⟩⟩
  refine ⟨hcut.2.mpr ⟨0x1000, by decide, (hone _ (by decide)).1⟩, (hcut.1.mpr fun size hsize => ?_).2⟩
  exact iff_of_true (hone size hsize).1 (hone size hsize).2

/-- Both pages: every address of the range is mapped in both tables, and one call is refused. -/
theorem mprotect_refuses_pieces :
    twoPieces.WellFormed ∧ SameProt onePiece twoPieces ∧
      (∀ x, InRange 0x1000 0x2000 x → twoPieces.protAt x = some 3) ∧
      (mprotect onePiece 0x1000 0x2000 1).1 = 0 ∧ (mprotect twoPieces 0x1000 0x2000 1).1 = einval := by
  refine ⟨twoPieces_wellFormed, onePiece_sameProt, fun x hx => ?_, by decide, by decide⟩
  rw [← onePiece_sameProt.prot, onePiece_wellFormed.protAt_iff]
  exact ⟨_, List.mem_singleton_self _, hx, rfl⟩

end IshGo.I386.AddressSpace
