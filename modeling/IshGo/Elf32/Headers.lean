/-
# `IshGo.Elf32.Headers` — a load with any headers

What `validateELF` and `Add` refuse is enough for a table in order and for slices in range, whatever the headers
say.  The end of the data is not safe: a writable segment that ends at 2³² gets as far as a load if its first page
is mapped already, and its end is cut to `0`.
-/
import IshGo.Elf32.InitialStack

namespace IshGo.Elf32

open I386 Lib

variable {parse : Parser} {resolve : Option FileResolver} {random : Option (Vector U8 16)} {data : List U8}
  {argv envp : List (List U8)} {main : Source} {interp : Option Source}

/-! ## Slices and copies -/

def Source.InRange (s : Source) : Prop :=
  ∀ p ∈ s.file.progs, p.type ≠ .other → p.off.toNat + p.filesz.toNat ≤ s.data.length

theorem Source.inRange {s : Source} (h : validateELF s.file s.data = .ok ()) : s.InRange := by
  intro p hp htype
  have hdefect := validateELF_ok h p hp
  unfold Prog.defect at hdefect
  cases ht : p.type with
  | other => exact absurd ht htype
  | load | interp =>
    rw [ht] at hdefect
    dsimp only at hdefect
    split at hdefect
    · cases hdefect
    · rename_i hok
      omega

theorem loadSegments_table {m m' : Memory} {gs : List Segment} (hv : ∀ g ∈ gs, g.Valid) (hw : m.space.WellFormed)
    (h : loadSegments m gs = .ok m') :
    m'.space.WellFormed ∧ m'.space.max = m.space.max ∧
      ∀ g ∈ gs, g.end64 ≤ 2 ^ 32 ∧ ∀ i < g.prog.filesz.toNat, g.start64 + i < m.size.toNat := by
  induction gs generalizing m with
  | nil =>
    cases h
    exact ⟨hw, rfl, fun g hg => absurd hg List.not_mem_nil⟩
  | cons g₀ gs ih =>
    simp only [loadSegments] at h
    split at h
    · cases h
    rename_i m₁ hone
    obtain ⟨hsize₁, -, hin₁⟩ := loadSegment_data (hv g₀ List.mem_cons_self) hone
    obtain ⟨hend, m₂, hmap, hwrite⟩ := loadSegment_ok hone
    have hone₁ : m₁.space.WellFormed ∧ m₁.space.max = m.space.max := by
      rw [loadSegment_space hwrite]
      rcases mapSegment_ok hmap with ⟨-, -, rfl⟩ | ⟨-, space, hadd, rfl⟩
      · exact ⟨hw, rfl⟩
      · obtain ⟨-, -, rfl⟩ := AddressSpace.add_ok hadd
        exact ⟨hw.add hadd, rfl⟩
    obtain ⟨hw', hmax, hin⟩ := ih (fun g hg => hv g (List.mem_cons_of_mem _ hg)) hone₁.1 h
    refine ⟨hw', hmax.trans hone₁.2, fun g hg => ?_⟩
    rcases List.mem_cons.mp hg with rfl | hg
    · exact ⟨hend, fun i hi => (hin₁ i hi).1⟩
    · exact hsize₁ ▸ hin g hg

/-! ## The end of the data -/

def Segment.Writable (g : Segment) : Prop := g.prog.flags &&& pfW ≠ 0

instance (g : Segment) : Decidable g.Writable := inferInstanceAs (Decidable (_ ≠ _))

theorem break_above_iff {s : Source} {max brk : U32} (h : imageBounds s = .ok (max, brk))
    (hends : ∀ g ∈ s.segments, g.end64 ≤ 2 ^ 32) :
    (∀ g ∈ s.segments, g.Writable → g.end64 ≤ brk.toNat) ↔ ∀ g ∈ s.segments, g.Writable → g.end64 ≠ 2 ^ 32 := by
  have hfold : s.segments.foldl (fun brk g => if g.prog.flags &&& pfW ≠ 0 ∧ g.end64 > brk then g.end64 else brk) 0 =
      (s.segments.filter fun g => g.Writable).foldl (fun max g => if g.end64 > max then g.end64 else max) 0 := by
    rw [List.foldl_filter]
    congr 1
    funext brk g
    simp only [decide_eq_true_eq, ← ite_and]
    rfl
  obtain ⟨-, hall, hlt⟩ := le_foldl_end (s.segments.filter fun g => g.Writable) 0
  constructor
  · intro habove g hg hw
    have := habove g hg hw
    have := brk.isLt
    omega
  intro hno g hg hw
  have hmem {g : Segment} (hg : g ∈ s.segments) (hw : g.Writable) : g ∈ s.segments.filter fun g => g.Writable :=
    List.mem_filter.mpr ⟨hg, decide_eq_true hw⟩
  have hle := hall g (hmem hg hw)
  unfold imageBounds at h
  dsimp only at h
  split at h
  · cases h
  cases h
  rw [hfold]
  split
  · omega
  · have hcut := le_pageAlignUp (BitVec.ofNat 32
      ((s.segments.filter fun g => g.Writable).foldl (fun max g => if g.end64 > max then g.end64 else max) 0))
    rw [toNat_ofNat_of_lt (hlt _ (by decide) fun g hg => ?_)] at hcut
    · exact Nat.le_trans hle hcut
    · obtain ⟨hg, hw⟩ := List.mem_filter.mp hg
      exact Nat.lt_of_le_of_ne (hends g hg) (hno g hg (of_decide_eq_true hw))

/-! ## A load -/

structure InOrder (image : Image) (gs : List Segment) : Prop where
  table : image.mem.space.WellFormed
  max : image.mem.space.max = image.mem.size
  stack : stackMapping image.mem.size ∈ image.mem.space.mappings
  apart : ∀ n ∈ image.mem.space.mappings, n ≠ stackMapping image.mem.size →
    ∀ x, ¬ (n.Covers x ∧ (stackMapping image.mem.size).Covers x)
  copies : ∀ g ∈ gs, ∀ i < g.prog.filesz.toNat, g.start64 + i < image.mem.size.toNat

/-- **Headers.** -/
theorem load_headers (hfiles : openFiles parse resolve data = .ok (main, interp)) :
    (∀ s ∈ main :: interp.toList, s.InRange) ∧
      ∀ image, loadWithEnvResolver parse resolve random data argv envp = .ok image →
        InOrder image (allSegments main interp) ∧
        ((∀ g ∈ main.segments, g.Writable → g.end64 ≤ image.brk.toNat) ↔
          ∀ g ∈ main.segments, g.Writable → g.end64 ≠ 2 ^ 32) := by
  refine ⟨fun s hs => Source.inRange (openFiles_ok hfiles s hs), fun image hload => ?_⟩
  obtain ⟨m, top, hloaded⟩ := loaded hfiles hload
  have hstack := hloaded.mapped
  obtain ⟨size, brk, m', stack, hsize, hplace, hbuild, rfl⟩ := loadWithEnvResolver_ok hfiles hload
  obtain ⟨m₁, space, hsegs, hadd, rfl⟩ := placeImage_ok hplace
  have hshape := sameShape_buildStack hbuild
  obtain ⟨⟨max, hmain⟩, -, hlarge, -⟩ := memorySize_ok hsize
  have hnew := size_ofNewAddressSpace hlarge
  obtain ⟨htable, hmax, hin⟩ :=
    loadSegments_table (valid_allSegments hfiles) (AddressSpace.wellFormed_new size) hsegs
  have hsize₁ := (loadSegments_data (valid_allSegments hfiles) hsegs).1
  have hmem : stack.mem.size = size := hshape.size.trans (hsize₁.trans hnew)
  have htable' : stack.mem.space.WellFormed := hshape.space ▸ htable.add hadd
  refine ⟨⟨htable', ?_, hstack, ?_, ?_⟩, ?_⟩
  · show stack.mem.space.max = stack.mem.size
    obtain ⟨-, -, rfl⟩ := AddressSpace.add_ok hadd
    rw [hshape.space, hmem]
    refine hmax.trans ?_
    unfold defaultMemory at hlarge
    exact if_neg (by bv_omega)
  · rintro n hn hne x ⟨hx, hx'⟩
    have hfirst := htable'.mappingAt_iff.mpr ⟨hn, hx⟩
    rw [htable'.mappingAt_iff.mpr ⟨hstack, hx'⟩] at hfirst
    exact hne (Option.some.inj hfirst).symm
  · intro g hg
    show ∀ i < _, _ < stack.mem.size.toNat
    rw [hmem, ← hnew]
    exact (hin g hg).2
  · exact break_above_iff hmain fun g hg => (hin g (List.mem_append_left _ hg)).1

/-- The second segment begins in the page of the first and ends at 2³²; the interpreter, which is any other file,
makes up for the end of the file that is cut to `0`. -/
def topFile : File :=
  { supported := true
    entry := 0x1000
    progs := [⟨.interp, 4, 0, 0, 1, 1⟩, ⟨.load, 5, 0, 0x1000, 0, 0x800⟩, ⟨.load, 6, 0, 0x1000, 0, 0xfffff000⟩] }

def loadTop : Except LoadError Image :=
  loadWithEnvResolver (fun data => some (if data = [0x6c] then topFile else sharedPage 4 0x800)) (some fun _ => some [])
    (some (Vector.replicate 16 0)) [0x6c] [] []

theorem break_below : (loadTop.map fun image => image.brk) = .ok 0 ∧
    ∃ g ∈ (⟨topFile, [0x6c], 0, "ELF PT_LOAD"⟩ : Source).segments, g.Writable ∧ g.end64 = 2 ^ 32 :=
  ⟨by decide +kernel, _, List.mem_cons_of_mem _ List.mem_cons_self, by decide, rfl⟩

/-- With the end below 2³² the break is above the data. -/
theorem load_headers_sharedPage : ∃ image, loadSharedPage 6 0x1800 = .ok image ∧ 0x3000 ≤ image.brk.toNat := by
  have hfiles : openFiles (fun _ => some (sharedPage 6 0x1800)) none [] = .ok (sharedPageMain 6 0x1800, none) := rfl
  have hok : (loadSharedPage 6 0x1800).isOk = true := by decide +kernel
  cases hload : loadSharedPage 6 0x1800 with
  | error e =>
    rw [hload] at hok
    cases hok
  | ok image =>
    have hends : ∀ g ∈ (sharedPageMain 6 0x1800).segments, g.Writable → g.end64 ≠ 2 ^ 32 := by decide
    exact ⟨image, rfl, ((load_headers hfiles).2 image hload).2.mpr hends _ (List.mem_cons_of_mem _ List.mem_cons_self) (by decide)⟩

end IshGo.Elf32
