/-
# `IshGo.Elf32.Contents` — the bytes of a loaded image

What `loadSegments` leaves in memory, and how large the memory is.

A segment writes its file data where it is to be, over whatever a segment before it has written
there.  So a byte of memory comes from the last segment whose data covers it, and is zero if there
is none (`loadSegments_data`).
-/
import IshGo.Elf32.Placement

namespace IshGo.Elf32

open I386 Lib List

variable {data : List U8} {interp : Option Source} {main s : Source} {parse : Parser}
  {resolve : Option FileResolver}
variable {brk max : U32} {m m' : Memory}

/-! ## Valid headers -/

/-- What `validateELF` has made sure of. -/
structure Segment.Valid (g : Segment) : Prop where
  length : g.bytes.length = g.prog.filesz.toNat
  filesz_le : g.prog.filesz.toNat ≤ g.prog.memsz.toNat

theorem validateELF_ok {f : File} (h : validateELF f data = .ok ()) :
    ∀ p ∈ f.progs, p.defect data.length = none := by
  unfold validateELF at h
  split at h
  · cases h
  split at h
  · cases h
  · rename_i hnone
    exact findSome?_eq_none_iff.mp hnone

theorem Source.valid_segments (h : validateELF s.file s.data = .ok ()) : ∀ g ∈ s.segments, g.Valid := by
  intro g hg
  obtain ⟨p, hp, rfl⟩ := mem_map.mp hg
  obtain ⟨hmem, htype⟩ := mem_filter.mp hp
  have hdefect := validateELF_ok h p hmem
  unfold Prog.defect at hdefect
  rw [of_decide_eq_true htype] at hdefect
  dsimp only at hdefect
  split at hdefect
  · cases hdefect
  rename_i hok
  obtain ⟨hsize, hrest⟩ := not_or.mp hok
  obtain ⟨-, hfits⟩ := not_or.mp hrest
  refine ⟨?_, ?_⟩
  · show (p.slice s.data).length = p.filesz.toNat
    rw [Prog.slice, length_take, length_drop]
    omega
  · exact BitVec.le_def.mp (BitVec.not_lt.mp hsize)

theorem openInterpreter_ok {name : List U8}
    (h : openInterpreter parse resolve name = .ok s) : validateELF s.file s.data = .ok () := by
  unfold openInterpreter at h
  split at h
  · cases h
  split at h
  · cases h
  split at h
  · cases h
  split at h
  · cases h
  · rename_i hv
    cases h
    exact hv

theorem openFiles_ok (h : openFiles parse resolve data = .ok (main, interp)) :
    ∀ s ∈ main :: interp.toList, validateELF s.file s.data = .ok () := by
  unfold openFiles at h
  split at h
  · cases h
  split at h
  · cases h
  rename_i hv
  dsimp only at h
  intro s hs
  split at h
  · cases h
    rw [mem_singleton.mp hs]
    exact hv
  split at h
  · cases h
  rename_i hinterp
  cases h
  rcases mem_cons.mp hs with rfl | hs
  · exact hv
  · rw [mem_singleton.mp hs]
    exact openInterpreter_ok hinterp

theorem valid_allSegments
    (h : openFiles parse resolve data = .ok (main, interp)) : ∀ g ∈ allSegments main interp, g.Valid := by
  intro g hg
  rcases mem_append.mp hg with hg | hg
  · exact Source.valid_segments (openFiles_ok h main mem_cons_self) g hg
  · cases interp with
    | none => cases hg
    | some s => exact Source.valid_segments (openFiles_ok h s (mem_cons_of_mem _ mem_cons_self)) g hg

/-! ## One segment after the other -/

def Segment.FileHas (g : Segment) (x : Nat) : Prop :=
  g.start64 ≤ x ∧ x < g.start64 + g.prog.filesz.toNat

theorem loadSegment_data {g : Segment} (hv : g.Valid) (h : loadSegment m g = .ok m') :
    m'.size = m.size ∧
    (∀ x < 2 ^ 32, ¬ g.FileHas x → m'.data (BitVec.ofNat 32 x) = m.data (BitVec.ofNat 32 x)) ∧
    ∀ i < g.prog.filesz.toNat, g.start64 + i < m.size.toNat ∧
      some (m'.data (BitVec.ofNat 32 (g.start64 + i))) = g.bytes[i]? := by
  obtain ⟨hend, m₁, hmap, hwrite⟩ := loadSegment_ok h
  have hmap' : m₁.size = m.size ∧ m₁.data = m.data := by
    rcases mapSegment_ok hmap with ⟨-, -, rfl⟩ | ⟨-, -, -, rfl⟩
    · exact ⟨rfl, rfl⟩
    · exact ⟨rfl, rfl⟩
  rcases hwrite with ⟨hzero, rfl⟩ | ⟨hpos, hwrite⟩
  · rw [hmap'.2]
    refine ⟨hmap'.1, fun _ _ _ => rfl, ?_⟩
    intro i hi
    rw [hzero] at hi
    exact absurd hi (Nat.not_lt_zero i)
  have hlen := hv.length
  have hle := hv.filesz_le
  have hpos' : 0 < g.prog.filesz.toNat := by
    by_contra hn
    exact hpos (BitVec.eq_of_toNat_eq (Nat.eq_zero_of_not_pos hn))
  have hlt32 := g.prog.filesz.isLt
  have hend' : g.start64 + g.prog.memsz.toNat ≤ 2 ^ 32 := hend
  have hstart : (BitVec.ofNat 32 g.start64).toNat = g.start64 := toNat_ofNat_of_lt (by omega)
  have hfits := Memory.writeBytes_fits hwrite (by omega)
  rw [hstart, hlen] at hfits
  have hdata : m'.data = storeBytes m.data (BitVec.ofNat 32 g.start64) g.bytes := by
    rw [Memory.writeBytes_result hwrite (by omega), ← hmap'.2]
  have hsize := m.size.isLt
  rw [hmap'.1] at hfits
  refine ⟨(Memory.writeBytes_shape hwrite).1.trans hmap'.1, ?_, ?_⟩
  · intro x hx hout
    rw [hdata]
    refine storeBytes_beyond (by omega) ?_
    unfold Segment.FileHas at hout
    rw [BitVec.toNat_sub, toNat_ofNat_of_lt hx, hstart]
    omega
  intro i hi
  have hoff : (BitVec.ofNat 32 (g.start64 + i) - BitVec.ofNat 32 g.start64).toNat = i := by
    rw [BitVec.toNat_sub, hstart, toNat_ofNat_of_lt (by omega)]
    omega
  rw [hdata]
  exact ⟨by omega, storeBytes_inside (by omega) hoff (by omega)⟩

/-- A byte of memory after all segments: of the last one that has it, or as before. -/
theorem loadSegments_data {gs : List Segment} (hv : ∀ g ∈ gs, g.Valid)
    (h : loadSegments m gs = .ok m') :
    m'.size = m.size ∧
    (∀ x < 2 ^ 32, (∀ g ∈ gs, ¬ g.FileHas x) → m'.data (BitVec.ofNat 32 x) = m.data (BitVec.ofNat 32 x)) ∧
    ∀ front g back, gs = front ++ g :: back → ∀ i < g.prog.filesz.toNat,
      (∀ g' ∈ back, ¬ g'.FileHas (g.start64 + i)) → g.start64 + i < m.size.toNat ∧
        some (m'.data (BitVec.ofNat 32 (g.start64 + i))) = g.bytes[i]? := by
  induction gs generalizing m with
  | nil =>
    cases h
    refine ⟨rfl, fun _ _ _ => rfl, ?_⟩
    intro front g back hgs
    exact absurd hgs.symm (append_ne_nil_of_right_ne_nil _ (cons_ne_nil _ _))
  | cons g₀ gs ih =>
    simp only [loadSegments] at h
    split at h
    · cases h
    rename_i m₁ hone
    obtain ⟨hsize₁, hout₁, hin₁⟩ := loadSegment_data (hv g₀ mem_cons_self) hone
    obtain ⟨hsize, hout, hin⟩ := ih (fun g hg => hv g (mem_cons_of_mem _ hg)) h
    refine ⟨hsize.trans hsize₁, ?_, ?_⟩
    · intro x hx hnone
      rw [hout x hx fun g hg => hnone g (mem_cons_of_mem _ hg), hout₁ x hx (hnone g₀ mem_cons_self)]
    intro front g back hgs i hi hback
    cases front with
    | nil =>
      -- the first segment: nothing after it has the byte
      obtain ⟨rfl, rfl⟩ := cons.inj hgs
      obtain ⟨hlt, hbyte⟩ := hin₁ i hi
      have := m.size.isLt
      rw [hout _ (by omega) hback]
      exact ⟨hlt, hbyte⟩
    | cons g₁ front =>
      obtain ⟨-, hgs⟩ := cons.inj hgs
      have hlater := hin front g back hgs i hi hback
      rw [hsize₁] at hlater
      exact hlater

/-! ## The size of the memory -/

theorem le_foldl_end (gs : List Segment) (a : Nat) :
    a ≤ gs.foldl (fun max g => if g.end64 > max then g.end64 else max) a ∧
      (∀ g ∈ gs, g.end64 ≤ gs.foldl (fun max g => if g.end64 > max then g.end64 else max) a) ∧
      ∀ b, a < b → (∀ g ∈ gs, g.end64 < b) →
        gs.foldl (fun max g => if g.end64 > max then g.end64 else max) a < b := by
  induction gs generalizing a with
  | nil => exact ⟨Nat.le_refl a, fun g hg => absurd hg not_mem_nil, fun b hb _ => hb⟩
  | cons g gs ih =>
    rw [foldl_cons]
    obtain ⟨hle, hall, hlt⟩ := ih (if g.end64 > a then g.end64 else a)
    have hmax : a ≤ (if g.end64 > a then g.end64 else a) ∧
        g.end64 ≤ (if g.end64 > a then g.end64 else a) := by
      split
      · exact ⟨by omega, Nat.le_refl _⟩
      · exact ⟨Nat.le_refl _, by omega⟩
    refine ⟨Nat.le_trans hmax.1 hle, ?_, ?_⟩
    · intro g' hg'
      rcases mem_cons.mp hg' with rfl | hg'
      · exact Nat.le_trans hmax.2 hle
      · exact hall g' hg'
    intro b hb hends
    refine hlt b ?_ fun g' hg' => hends g' (mem_cons_of_mem _ hg')
    split
    · exact hends g mem_cons_self
    · exact hb

/-- The end of a file's segments, and a whole number of pages unless there is no room for it. -/
theorem imageBounds_ok (h : imageBounds s = .ok (max, brk)) :
    (max.toNat % 4096 = 0 ∨ max.toNat = 2 ^ 32 - 1) ∧
      ((∀ g ∈ s.segments, g.end64 < 2 ^ 32) → ∀ g ∈ s.segments, g.end64 ≤ max.toNat) := by
  unfold imageBounds at h
  dsimp only at h
  split at h
  · cases h
  cases h
  refine ⟨?_, ?_⟩
  · unfold pageAlignUp
    split
    · exact Or.inr rfl
    · refine Or.inl ?_
      rw [toNat_and_not_page]
      omega
  intro hends g hg
  obtain ⟨-, hall, hlt⟩ := le_foldl_end s.segments 0
  have hle := le_pageAlignUp (BitVec.ofNat 32
    (s.segments.foldl (fun max g => if g.end64 > max then g.end64 else max) 0))
  rw [toNat_ofNat_of_lt (hlt _ (by decide) hends)] at hle
  exact Nat.le_trans (hall g hg) hle

theorem interpreterMax_ok (h : interpreterMax interp = .ok max) :
    (max.toNat % 4096 = 0 ∨ max.toNat = 2 ^ 32 - 1) ∧
      ((∀ g ∈ interp.elim [] Source.segments, g.end64 < 2 ^ 32) →
        ∀ g ∈ interp.elim [] Source.segments, g.end64 ≤ max.toNat) := by
  cases interp with
  | none =>
    cases h
    exact ⟨Or.inl rfl, fun _ g hg => absurd hg not_mem_nil⟩
  | some s =>
    simp only [interpreterMax] at h
    cases hb : imageBounds s with
    | error e =>
      rw [hb] at h
      cases h
    | ok bounds =>
      rw [hb] at h
      cases h
      exact imageBounds_ok hb

theorem memorySize_ok {size : U32} (h : memorySize main interp = .ok (size, brk)) :
    (∃ max, imageBounds main = .ok (max, brk)) ∧ size.toNat % 4096 = 0 ∧ defaultMemory ≤ size.toNat ∧
      ((∀ g ∈ allSegments main interp, g.end64 < 2 ^ 32) →
        ∀ g ∈ allSegments main interp, g.end64 + stackReserve + pageSize ≤ size.toNat) := by
  unfold memorySize at h
  split at h
  · cases h
  rename_i mainMax mainBrk hmain
  split at h
  · cases h
  rename_i interpMax hinterp
  obtain ⟨hpage₁, hends₁⟩ := imageBounds_ok hmain
  obtain ⟨hpage₂, hends₂⟩ := interpreterMax_ok hinterp
  -- the larger of the two ends
  have hmax : ∃ max : Nat, (if interpMax > mainMax then interpMax else mainMax).toNat = max ∧
      mainMax.toNat ≤ max ∧ interpMax.toNat ≤ max ∧ (max % 4096 = 0 ∨ max = 2 ^ 32 - 1) := by
    refine ⟨_, rfl, ?_⟩
    split
    · rename_i hgt
      exact ⟨Nat.le_of_lt (BitVec.lt_def.mp hgt), Nat.le_refl _, hpage₂⟩
    · rename_i hle
      exact ⟨Nat.le_refl _, BitVec.le_def.mp (BitVec.not_lt.mp hle), hpage₁⟩
  obtain ⟨max, heq, hmain', hinterp', hpage⟩ := hmax
  dsimp only at h
  rw [heq] at h
  obtain ⟨total, htotal⟩ : ∃ total, (if max + stackReserve + pageSize > defaultMemory then
    max + stackReserve + pageSize else defaultMemory) = total := ⟨_, rfl⟩
  rw [htotal] at h
  split at h
  · cases h
  split at h
  · cases h
  rename_i hbig
  obtain ⟨rfl, rfl⟩ := Prod.mk.inj (Except.ok.inj h)
  unfold stackReserve pageSize defaultMemory at *
  rw [toNat_ofNat_of_lt (by omega)]
  have hsize : total % 4096 = 0 ∧ 128 * 2 ^ 20 ≤ total ∧ max + 8 * 2 ^ 20 + 4096 ≤ total := by
    split at htotal <;> omega
  refine ⟨⟨mainMax, hmain⟩, hsize.1, hsize.2.1, ?_⟩
  intro hends g hg
  have hle : g.end64 ≤ max := by
    rcases mem_append.mp hg with hg | hg
    · refine Nat.le_trans (hends₁ ?_ g hg) hmain'
      intro g' hg'
      exact hends g' (mem_append_left _ hg')
    · refine Nat.le_trans (hends₂ ?_ g hg) hinterp'
      intro g' hg'
      exact hends g' (mem_append_right _ hg')
  omega

end IshGo.Elf32
