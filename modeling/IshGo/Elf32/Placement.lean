/-
# `IshGo.Elf32.Placement` — the mappings of a loaded image

`loadSegments` asks whether the FIRST page of a segment is mapped.  If it is, the segment gets no
mapping, however far it reaches and whatever its permissions are.

    owners      the segments whose first page was free at their turn: one mapping for each
    the others  have to make do with these mappings, and the one of the stack
-/
import IshGo.Elf32.Loader
import IshGo.I386.Access

namespace IshGo.Elf32

open I386 Lib AddressSpace

variable {stack : InitialStack} {argv envp : List (List U8)} {m m' : Memory}
  {random : Option (Vector U8 16)} {interp : Option Source} {g : Segment} {main : Source}
  {top : U32}
variable {cursor : U32} {gs own : List Segment} {ptrs ws : List U32} {space : AddressSpace} {vs : List (List U8)}

/-! ## The stages of a load -/

theorem loadWithEnvResolver_ok {parse : Parser} {resolve : Option FileResolver} {data : List U8}
    {image : Image} (hfiles : openFiles parse resolve data = .ok (main, interp))
    (h : loadWithEnvResolver parse resolve random data argv envp = .ok image) :
    ∃ size brk m stack, memorySize main interp = .ok (size, brk) ∧
      placeImage size (allSegments main interp) = .ok m ∧
      buildStack m main interp random argv envp = .ok stack ∧
      image = makeImage main interp brk envp stack := by
  simp only [loadWithEnvResolver, hfiles] at h
  split at h
  · cases h
  rename_i size brk hsize
  split at h
  · cases h
  rename_i m hplace
  split at h
  · cases h
  · rename_i stack hstack
    cases h
    exact ⟨size, brk, m, stack, hsize, hplace, hstack, rfl⟩

theorem placeImage_ok {size : U32} (h : placeImage size gs = .ok m) :
    ∃ m₁ space, loadSegments (Memory.ofNewAddressSpace size) gs = .ok m₁ ∧
      m₁.space.add (m₁.size - BitVec.ofNat 32 stackReserve) (BitVec.ofNat 32 (stackReserve - pageSize))
        (protRead ||| protWrite) "guest stack" = .ok space ∧ m = { m₁ with space := space } := by
  unfold placeImage addStack at h
  split at h
  · cases h
  rename_i m₁ hload
  split at h
  · cases h
  · rename_i space hadd
    cases h
    exact ⟨m₁, space, hload, hadd, rfl⟩

theorem buildStack_ok (h : buildStack m main interp random argv envp = .ok stack) :
    ∃ (bytes : Vector U8 16) (m₁ : Memory), random = some bytes ∧
      m.writeBytes (stackTop m - 16) bytes.toList = .ok m₁ ∧
      pushInitialStack m₁ (stackTop m) argv envp (auxv main interp (stackTop m - 16)) = .ok stack := by
  unfold buildStack at h
  split at h
  · cases h
  rename_i bytes
  dsimp only at h
  split at h
  · cases h
  · rename_i m₁ hwrite
    exact ⟨bytes, m₁, rfl, hwrite, h⟩

theorem pushInitialStack_ok {auxv : List (U32 × U32)}
    (h : pushInitialStack m top argv envp auxv = .ok stack) :
    ∃ m₁ m₂, pushStrings m top (argvOf argv) = .ok (stack.argvPtrs, m₁) ∧
      pushStrings m₁ (lowest top stack.argvPtrs) envp = .ok (stack.envPtrs, m₂) ∧
      stack.sp = (lowest (lowest top stack.argvPtrs) stack.envPtrs &&& ~~~15) -
        BitVec.ofNat 32 ((1 + stack.argvPtrs.length + 1 + stack.envPtrs.length + 1 +
          2 * (auxv.length + 1)) * 4) ∧
      pushWords m₂ stack.sp (stackWords stack.argvPtrs stack.envPtrs auxv) = .ok stack.mem := by
  unfold pushInitialStack at h
  split at h
  · cases h
  rename_i argvPtrs m₁ hargv
  dsimp only at h
  split at h
  · cases h
  rename_i envPtrs m₂ henv
  split at h
  · cases h
  · rename_i m₃ hwords
    cases h
    exact ⟨m₁, m₂, hargv, henv, rfl, hwords⟩

theorem pushStrings_cons_ok {v : List U8} (h : pushStrings m top (v :: vs) = .ok (ptrs, m')) :
    ∃ rest m₁, pushStrings m top vs = .ok (rest, m₁) ∧
      ¬ BitVec.ofNat 32 (v ++ [0]).length > rest.headD top ∧
      m₁.writeBytes (rest.headD top - BitVec.ofNat 32 (v ++ [0]).length) (v ++ [0]) = .ok m' ∧
      ptrs = (rest.headD top - BitVec.ofNat 32 (v ++ [0]).length) :: rest := by
  simp only [pushStrings] at h
  split at h
  · cases h
  rename_i rest m₁ hrest
  split at h
  · cases h
  rename_i hroom
  split at h
  · cases h
  · rename_i hwrite
    cases h
    exact ⟨rest, m₁, hrest, hroom, hwrite, rfl⟩

theorem pushWords_cons_ok {w : U32} (h : pushWords m cursor (w :: ws) = .ok m') :
    ∃ m₁, m.writeBytes cursor (leBytes w 4) = .ok m₁ ∧ pushWords m₁ (cursor + 4) ws = .ok m' := by
  simp only [pushWords] at h
  split at h
  · cases h
  · rename_i m₁ hwrite
    exact ⟨m₁, hwrite, h⟩

theorem mapSegment_ok (h : mapSegment m g = .ok m') :
    (∃ n, m.space.mappingAt g.start = some n ∧ m' = m) ∨
    (m.space.mappingAt g.start = none ∧ ∃ space,
      m.space.add g.start (g.stop - g.start) g.prot g.label = .ok space ∧ m' = { m with space := space }) := by
  unfold mapSegment at h
  split at h
  · rename_i n hn
    cases h
    exact Or.inl ⟨n, hn, rfl⟩
  rename_i hnone
  split at h
  · cases h
  · rename_i space hadd
    cases h
    exact Or.inr ⟨hnone, space, hadd, rfl⟩

theorem loadSegment_ok (h : loadSegment m g = .ok m') :
    g.end64 ≤ 2 ^ 32 ∧ ∃ m₁, mapSegment m g = .ok m₁ ∧
      (g.prog.filesz = 0 ∧ m' = m₁ ∨
        g.prog.filesz ≠ 0 ∧ m₁.writeBytes (BitVec.ofNat 32 g.start64) g.bytes = .ok m') := by
  unfold loadSegment at h
  split at h
  · cases h
  rename_i hend
  refine ⟨Nat.not_lt.mp hend, ?_⟩
  split at h
  · cases h
  rename_i m₁ hmap
  refine ⟨m₁, hmap, ?_⟩
  split at h
  · rename_i hzero
    cases h
    exact Or.inl ⟨hzero, rfl⟩
  rename_i hpos
  split at h
  · cases h
  · rename_i hwrite
    cases h
    exact Or.inr ⟨hpos, hwrite⟩

theorem loadSegment_space {m₁ : Memory}
    (h : g.prog.filesz = 0 ∧ m' = m₁ ∨ g.prog.filesz ≠ 0 ∧ m₁.writeBytes (BitVec.ofNat 32 g.start64) g.bytes = .ok m') :
    m'.space = m₁.space := by
  rcases h with ⟨-, rfl⟩ | ⟨-, hwrite⟩
  · rfl
  · exact (Memory.writeBytes_shape hwrite).2.1

/-! ## The stack changes bytes only -/

structure SameShape (m m' : Memory) : Prop where
  size : m'.size = m.size
  space : m'.space = m.space
  isProtected : m'.isProtected = m.isProtected

theorem SameShape.trans {m'' : Memory} (h : SameShape m m') (h' : SameShape m' m'') : SameShape m m'' :=
  ⟨h'.size.trans h.size, h'.space.trans h.space, h'.isProtected.trans h.isProtected⟩

theorem sameShape_writeBytes {addr : U32} {bytes : List U8} (h : m.writeBytes addr bytes = .ok m') :
    SameShape m m' :=
  ⟨(Memory.writeBytes_shape h).1, (Memory.writeBytes_shape h).2.1, (Memory.writeBytes_shape h).2.2⟩

theorem sameShape_pushStrings (h : pushStrings m top vs = .ok (ptrs, m')) : SameShape m m' := by
  induction vs generalizing ptrs m' with
  | nil =>
    cases h
    exact ⟨rfl, rfl, rfl⟩
  | cons v vs ih =>
    obtain ⟨rest, m₁, hrest, -, hwrite, -⟩ := pushStrings_cons_ok h
    exact (ih hrest).trans (sameShape_writeBytes hwrite)

theorem sameShape_pushWords (h : pushWords m cursor ws = .ok m') : SameShape m m' := by
  induction ws generalizing m cursor with
  | nil =>
    cases h
    exact ⟨rfl, rfl, rfl⟩
  | cons w ws ih =>
    obtain ⟨m₁, hwrite, hrest⟩ := pushWords_cons_ok h
    exact (sameShape_writeBytes hwrite).trans (ih hrest)

theorem sameShape_buildStack (h : buildStack m main interp random argv envp = .ok stack) :
    SameShape m stack.mem := by
  obtain ⟨bytes, m₁, -, hrandom, hpush⟩ := buildStack_ok h
  obtain ⟨m₂, m₃, hargv, henv, -, hwords⟩ := pushInitialStack_ok hpush
  exact (sameShape_writeBytes hrandom).trans ((sameShape_pushStrings hargv).trans
    ((sameShape_pushStrings henv).trans (sameShape_pushWords hwords)))

/-! ## Whole pages -/

theorem le_pageAlignUp (v : U32) : v.toNat ≤ (pageAlignUp v).toNat := by
  unfold pageAlignUp
  split
  · bv_omega
  · have hsum : (v + 4095).toNat = v.toNat + 4095 := by bv_omega
    rw [toNat_and_not_page (v + 4095), hsum]
    omega

theorem start_le (h : g.start64 < 2 ^ 32) : g.start.toNat ≤ g.start64 := by
  unfold Segment.start
  rw [toNat_and_not_page, toNat_ofNat_of_lt h]
  omega

theorem end64_le_stop (h : g.end64 < 2 ^ 32) : g.end64 ≤ g.stop.toNat := by
  have hle := le_pageAlignUp (BitVec.ofNat 32 g.end64)
  rw [toNat_ofNat_of_lt h] at hle
  exact hle

/-! ## Who has a mapping -/

namespace Segment

def mapping (g : Segment) : Mapping := ⟨g.start, g.stop, g.prot, g.label⟩

def Has (g : Segment) (x : U32) : Prop := g.start64 ≤ x.toNat ∧ x.toNat < g.end64

end Segment

def Grants (prot : U8) (flags : U32) : Prop :=
  (flags &&& pfR ≠ 0 → prot &&& protRead = protRead) ∧
  (flags &&& pfW ≠ 0 → prot &&& protWrite = protWrite) ∧
  (flags &&& pfX ≠ 0 → prot &&& protExec = protExec)

theorem grants_prot (g : Segment) : Grants g.prot g.prog.flags := by
  unfold Grants Segment.prot
  refine ⟨?_, ?_, ?_⟩
  · intro h
    rw [if_pos h]
    split <;> split <;> rfl
  · intro h
    split <;> split <;> rfl
  · intro h
    split <;> split <;> rfl

/-- The segments that get a mapping of their own, after those in `own`: their first page is in
none of the mappings before them. -/
def owners (own : List Segment) : List Segment → List Segment
  | [] => own
  | g :: gs => owners (if own.any fun o => o.mapping.Covers g.start then own else own ++ [g]) gs

/-- The table has the mappings of these segments, and they cover the addresses of the segments. -/
structure Placed (space : AddressSpace) (own : List Segment) : Prop where
  mem_iff : ∀ n, n ∈ space.mappings ↔ ∃ o ∈ own, n = o.mapping
  covers : ∀ o ∈ own, ∀ x, o.Has x → o.mapping.Covers x

theorem placed_new (size : U32) : Placed (new size) [] := by
  refine ⟨?_, ?_⟩
  · intro n
    simp [new]
  · intro o ho
    cases ho

/-- A lookup finds something exactly if a mapping is there. -/
theorem Placed.mappingAt_eq_none (h : Placed space own)
    (x : U32) : space.mappingAt x = none ↔ (own.any fun o => o.mapping.Covers x) = false := by
  unfold mappingAt
  rw [List.find?_eq_none, List.any_eq_false]
  constructor
  · intro hall o ho
    exact hall o.mapping ((h.mem_iff _).mpr ⟨o, ho, rfl⟩)
  · intro hall n hn
    obtain ⟨o, ho, rfl⟩ := (h.mem_iff n).mp hn
    exact hall o ho

theorem Placed.add {space' : AddressSpace} (h : Placed space own) (hend : g.end64 ≤ 2 ^ 32)
    (hadd : space.add g.start (g.stop - g.start) g.prot g.label = .ok space') :
    Placed space' (own ++ [g]) := by
  obtain ⟨hacc, -, rfl⟩ := add_ok hadd
  obtain ⟨hpos, hstop, -⟩ := accepted hacc
  have hcancel : g.start + (g.stop - g.start) = g.stop := by
    rw [BitVec.add_comm, BitVec.sub_add_cancel]
  rw [hcancel] at hstop ⊢
  refine ⟨?_, ?_⟩
  · intro n
    rw [List.mem_insertionSort, List.mem_append, List.mem_singleton, h.mem_iff]
    simp only [List.mem_append, List.mem_singleton, or_and_right, exists_or, exists_eq_left]
    rfl
  intro o ho x hx
  rcases List.mem_append.mp ho with ho | ho
  · exact h.covers o ho x hx
  rw [List.mem_singleton.mp ho] at hx ⊢
  obtain ⟨hlo, hhi⟩ := hx
  have hstart := start_le (g := g) (by have := x.isLt; omega)
  -- an end at the very top is cut to zero, and nothing ends there
  have htop : g.end64 < 2 ^ 32 := by
    by_contra htop
    have hzero : g.stop = 0 := by
      unfold Segment.stop
      rw [show g.end64 = 2 ^ 32 from by omega]
      decide
    have hzero' : g.stop.toNat = 0 := by rw [hzero]; rfl
    omega
  have hle := end64_le_stop htop
  refine ⟨BitVec.le_def.mpr ?_, BitVec.lt_def.mpr ?_⟩
  · exact Nat.le_trans hstart hlo
  · exact Nat.lt_of_lt_of_le hhi hle

theorem Placed.loadSegment (h : Placed m.space own) (hload : loadSegment m g = .ok m') :
    Placed m'.space (if own.any fun o => o.mapping.Covers g.start then own else own ++ [g]) := by
  obtain ⟨hend, m₁, hmap, hwrite⟩ := loadSegment_ok hload
  rw [loadSegment_space hwrite]
  rcases mapSegment_ok hmap with ⟨n, hn, rfl⟩ | ⟨hnone, space, hadd, rfl⟩
  · have hany : ¬ (own.any fun o => o.mapping.Covers g.start) = false := by
      intro hfalse
      rw [(h.mappingAt_eq_none _).mpr hfalse] at hn
      cases hn
    rw [if_pos (eq_true_of_ne_false hany)]
    exact h
  · rw [if_neg (ne_true_of_eq_false ((h.mappingAt_eq_none _).mp hnone))]
    exact h.add hend hadd

theorem Placed.loadSegments (h : Placed m.space own)
    (hload : loadSegments m gs = .ok m') : Placed m'.space (owners own gs) := by
  induction gs generalizing m own with
  | nil =>
    cases hload
    exact h
  | cons g gs ih =>
    simp only [Elf32.loadSegments] at hload
    split at hload
    · cases hload
    · rename_i m₁ hone
      exact ih (h.loadSegment hone) hload

/-! ## Every segment mapped -/

def stackMapping (size : U32) : Mapping :=
  ⟨size - BitVec.ofNat 32 stackReserve,
    size - BitVec.ofNat 32 stackReserve + BitVec.ofNat 32 (stackReserve - pageSize),
    protRead ||| protWrite, "guest stack"⟩

/-- Every address of every segment lies in a mapping with the permissions of the segment. -/
def SegmentsMapped (image : Image) (gs : List Segment) : Prop :=
  ∀ g ∈ gs, ∀ x, g.Has x → ∃ n ∈ image.mem.space.mappings, n.Covers x ∧ Grants n.prot g.prog.flags

/-- A segment without a mapping of its own lies in the mappings of others, and in nothing else
does the source differ from what is asked. -/
theorem segments_mapped_iff {parse : Parser} {resolve : Option FileResolver}
    {random : Option (Vector U8 16)} {data : List U8} {argv envp : List (List U8)} {image : Image}
    {main : Source} {interp : Option Source}
    (hfiles : openFiles parse resolve data = .ok (main, interp))
    (hload : loadWithEnvResolver parse resolve random data argv envp = .ok image) :
    SegmentsMapped image (allSegments main interp) ↔
      ∀ g ∈ allSegments main interp, g ∉ owners [] (allSegments main interp) → ∀ x, g.Has x →
        (∃ o ∈ owners [] (allSegments main interp), o.mapping.Covers x ∧ Grants o.prot g.prog.flags) ∨
        ((stackMapping image.mem.size).Covers x ∧ Grants (protRead ||| protWrite) g.prog.flags) := by
  obtain ⟨size, brk, m, stack, -, hplace, hstack, rfl⟩ := loadWithEnvResolver_ok hfiles hload
  obtain ⟨m₁, space, hsegs, hadd, rfl⟩ := placeImage_ok hplace
  have hplaced := (placed_new size).loadSegments hsegs
  have hshape := sameShape_buildStack hstack
  have hmem : ∀ n, n ∈ (makeImage main interp brk envp stack).mem.space.mappings ↔
      (∃ o ∈ owners [] (allSegments main interp), n = o.mapping) ∨ n = stackMapping stack.mem.size := by
    intro n
    show n ∈ stack.mem.space.mappings ↔ _
    rw [hshape.space, hshape.size]
    obtain ⟨-, -, rfl⟩ := add_ok hadd
    rw [List.mem_insertionSort, List.mem_append, List.mem_singleton, hplaced.mem_iff]
    rfl
  constructor
  · intro h g hg _ x hx
    obtain ⟨n, hn, hcov, hgrant⟩ := h g hg x hx
    rcases (hmem n).mp hn with ⟨o, ho, rfl⟩ | rfl
    · exact Or.inl ⟨o, ho, hcov, hgrant⟩
    · exact Or.inr ⟨hcov, hgrant⟩
  intro h g hg x hx
  by_cases hown : g ∈ owners [] (allSegments main interp)
  · exact ⟨g.mapping, (hmem _).mpr (Or.inl ⟨g, hown, rfl⟩), hplaced.covers g hown x hx, grants_prot g⟩
  · rcases h g hg hown x hx with ⟨o, ho, hcov, hgrant⟩ | ⟨hcov, hgrant⟩
    · exact ⟨o.mapping, (hmem _).mpr (Or.inl ⟨o, ho, rfl⟩), hcov, hgrant⟩
    · exact ⟨_, (hmem _).mpr (Or.inr rfl), hcov, hgrant⟩

/-- A file without contents: `[0x1000, 0x1800)` to be read and executed, and a second segment that
begins in the same page. -/
def sharedPage (flags memsz : U32) : File :=
  { supported := true
    entry := 0x1000
    progs := [⟨.load, 5, 0, 0x1000, 0, 0x800⟩, ⟨.load, flags, 0, 0x1800, 0, memsz⟩] }

def sharedPageMain (flags memsz : U32) : Source := ⟨sharedPage flags memsz, [], 0, "ELF PT_LOAD"⟩

def loadSharedPage (flags memsz : U32) : Except LoadError Image :=
  loadWithEnvResolver (fun _ => some (sharedPage flags memsz)) none (some (Vector.replicate 16 0)) [] [] []

/-- The second segment is read only and ends in the page. -/
theorem segments_mapped_iff_sharedPage :
    ∃ image, loadSharedPage 4 0x800 = .ok image ∧
      SegmentsMapped image (allSegments (sharedPageMain 4 0x800) none) := by
  have hfiles : openFiles (fun _ => some (sharedPage 4 0x800)) none [] =
      .ok (sharedPageMain 4 0x800, none) := rfl
  have hok : (loadSharedPage 4 0x800).isOk = true := by decide +kernel
  cases hload : loadSharedPage 4 0x800 with
  | error e =>
    rw [hload] at hok
    cases hok
  | ok image =>
    refine ⟨image, rfl, (segments_mapped_iff hfiles hload).mpr ?_⟩
    intro g hg _ x hx
    have hfirst : (⟨0, ⟨.load, 5, 0, 0x1000, 0, 0x800⟩, [], "ELF PT_LOAD"⟩ : Segment) ∈
        owners [] (allSegments (sharedPageMain 4 0x800) none) := List.mem_singleton.mpr rfl
    rcases List.mem_cons.mp hg with rfl | hg
    · have hlo : 0x1000 ≤ x.toNat := hx.1
      have hhi : x.toNat < 0x1800 := hx.2
      exact Or.inl ⟨_, hfirst, ⟨BitVec.le_def.mpr hlo, BitVec.lt_def.mpr (Nat.lt_trans hhi (by decide))⟩,
        by decide, by decide, by decide⟩
    rw [List.mem_singleton.mp hg] at hx ⊢
    have hlo : 0x1800 ≤ x.toNat := hx.1
    have hhi : x.toNat < 0x2000 := hx.2
    exact Or.inl ⟨_, hfirst, ⟨BitVec.le_def.mpr (Nat.le_trans (by decide) hlo), BitVec.lt_def.mpr hhi⟩,
      by decide, by decide, by decide⟩

/-- The second segment is to be written and goes on in the next page, which is not mapped. -/
theorem sharedPage_unmapped :
    ∃ image, loadSharedPage 6 0x1800 = .ok image ∧
      ¬ SegmentsMapped image (allSegments (sharedPageMain 6 0x1800) none) := by
  have hok : (loadSharedPage 6 0x1800).map (fun image => image.mem.space.mappings) =
      .ok [⟨0x1000, 0x2000, 5, "ELF PT_LOAD"⟩, ⟨0x7800000, 0x7fff000, 3, "guest stack"⟩] := by
    decide +kernel
  cases hload : loadSharedPage 6 0x1800 with
  | error e =>
    rw [hload] at hok
    cases hok
  | ok image =>
    rw [hload] at hok
    have htable : image.mem.space.mappings = _ := Except.ok.inj hok
    refine ⟨image, rfl, ?_⟩
    intro hmapped
    have hsecond : (⟨0, ⟨.load, 6, 0, 0x1800, 0, 0x1800⟩, [], "ELF PT_LOAD"⟩ : Segment) ∈
        allSegments (sharedPageMain 6 0x1800) none := List.mem_cons_of_mem _ List.mem_cons_self
    obtain ⟨n, hn, hcov, -⟩ := hmapped _ hsecond 0x2000 ⟨by decide, by decide⟩
    rw [htable] at hn
    revert hcov
    rcases List.mem_cons.mp hn with rfl | hn
    · decide
    · rw [List.mem_singleton.mp hn]
      decide

end IshGo.Elf32
