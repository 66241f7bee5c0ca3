/-
# `IshGo.Elf32.InitialStack` — does the image survive its stack?

The strings and words of the initial stack are written downwards from the last page but one of the
memory.  Nothing stops them at the end of the mapping "guest stack": protection is not enabled yet,
and a check against the size of the memory is passed far below.  With arguments that are long enough
they run out of the mapping and over the segments.
-/
import Mathlib.Algebra.GroupWithZero.Nat
import IshGo.Elf32.Contents

namespace IshGo.Elf32

open I386 Lib

variable {vs : List (List U8)} {ptrs : List U32} {v : List U8} {m' : Memory}
variable {gs : List Segment} {hi lo : Nat}
variable {cursor size top : U32} {m : Memory} {ws : List U32}

/-! ## Writes inside a range -/

/-- Bytes outside `[lo, hi)` are the same. -/
def ChangesOnly (lo hi : Nat) (m m' : Memory) : Prop :=
  ∀ x : U32, x.toNat < lo ∨ hi ≤ x.toNat → m'.data x = m.data x

theorem ChangesOnly.refl (lo hi : Nat) (m : Memory) : ChangesOnly lo hi m m := fun _ _ => rfl

theorem ChangesOnly.trans {m'' : Memory} (h : ChangesOnly lo hi m m')
    (h' : ChangesOnly lo hi m' m'') : ChangesOnly lo hi m m'' := by
  intro x hx
  rw [h' x hx, h x hx]

theorem ChangesOnly.mono {lo' hi' : Nat} (h : ChangesOnly lo hi m m')
    (hlo : lo' ≤ lo) (hhi : hi ≤ hi') : ChangesOnly lo' hi' m m' := by
  intro x hx
  refine h x ?_
  omega

theorem changesOnly_writeBytes {addr : U32} {bytes : List U8}
    (h : m.writeBytes addr bytes = .ok m') (hlen : bytes.length < 2 ^ 32) :
    addr.toNat + bytes.length ≤ m.size.toNat ∧
      ChangesOnly addr.toNat (addr.toNat + bytes.length) m m' := by
  have hfits := Memory.writeBytes_fits h hlen
  refine ⟨hfits, ?_⟩
  intro x hx
  have hsize := m.size.isLt
  rw [Memory.writeBytes_result h hlen]
  refine storeBytes_of_outside ?_
  rintro i hi rfl
  have hx' : (addr + BitVec.ofNat 32 i).toNat = addr.toNat + i := by
    rw [BitVec.toNat_add, BitVec.toNat_ofNat]
    omega
  omega

/-! ## Strings -/

def total (vs : List (List U8)) : Nat := (vs.map fun v => v.length + 1).sum

theorem length_le_total (vs : List (List U8)) : vs.length ≤ total vs := by
  induction vs with
  | nil => exact Nat.le_refl 0
  | cons v vs ih =>
    simp only [total, List.map_cons, List.sum_cons, List.length_cons] at ih ⊢
    omega

theorem length_pushStrings (h : pushStrings m top vs = .ok (ptrs, m')) :
    ptrs.length = vs.length := by
  induction vs generalizing ptrs m' with
  | nil =>
    cases h
    rfl
  | cons v vs ih =>
    obtain ⟨rest, m₁, hrest, -, -, rfl⟩ := pushStrings_cons_ok h
    rw [List.length_cons, List.length_cons, ih hrest]

/-- Strings of less than 4 GiB each lie one below the other, without a gap. -/
theorem pushStrings_spec (h : pushStrings m top vs = .ok (ptrs, m'))
    (hvs : ∀ v ∈ vs, v.length + 1 < 2 ^ 32) : (ptrs.headD top).toNat + total vs = top.toNat ∧
    (∀ ptr ∈ ptrs, (ptrs.headD top).toNat ≤ ptr.toNat) ∧
    (∀ e ∈ ptrs.zip vs, (ptrs.headD top).toNat ≤ e.1.toNat ∧
      e.1.toNat + (e.2.length + 1) ≤ top.toNat) ∧
    ChangesOnly (ptrs.headD top).toNat top.toNat m m' := by
  induction vs generalizing ptrs m' with
  | nil =>
    cases h
    refine ⟨rfl, ?_, ?_, .refl _ _ _⟩
    · intro ptr hptr
      cases hptr
    · intro e he
      cases he
  | cons v vs ih =>
    obtain ⟨rest, m₁, hrest, hroom, hwrite, rfl⟩ := pushStrings_cons_ok h
    obtain ⟨hsum, hlow, hzip, hold⟩ := ih hrest fun v' hv' => hvs v' (List.mem_cons_of_mem _ hv')
    have hv := hvs v List.mem_cons_self
    have hlen : (v ++ [(0 : U8)]).length = v.length + 1 := List.length_append
    rw [hlen] at hroom hwrite ⊢
    have hexact : (BitVec.ofNat 32 (v.length + 1)).toNat = v.length + 1 := toNat_ofNat_of_lt hv
    have hle : v.length + 1 ≤ (rest.headD top).toNat := by
      rw [← hexact]
      exact BitVec.le_def.mp (BitVec.not_lt.mp hroom)
    have hsp : (rest.headD top - BitVec.ofNat 32 (v.length + 1)).toNat =
        (rest.headD top).toNat - (v.length + 1) := by
      rw [BitVec.toNat_sub_of_le (BitVec.not_lt.mp hroom), hexact]
    have htotal : total (v :: vs) = v.length + 1 + total vs := rfl
    rw [List.headD_cons, hsp, htotal]
    refine ⟨by omega, ?_, ?_, ?_⟩
    · intro ptr hptr
      rcases List.mem_cons.mp hptr with rfl | hptr
      · omega
      · have := hlow ptr hptr
        omega
    · intro e he
      rw [List.zip_cons_cons] at he
      rcases List.mem_cons.mp he with rfl | he
      · dsimp only
        omega
      · have := hzip e he
        omega
    · obtain ⟨-, hnew⟩ := changesOnly_writeBytes hwrite (by rw [hlen]; exact hv)
      rw [hlen, hsp] at hnew
      exact (hold.mono (by omega) (Nat.le_refl _)).trans (hnew.mono (Nat.le_refl _) (by omega))

theorem lowest_eq (htop : (ptrs.headD top).toNat ≤ top.toNat)
    (hlow : ∀ ptr ∈ ptrs, (ptrs.headD top).toNat ≤ ptr.toNat) :
      lowest top ptrs = ptrs.headD top := by
  cases ptrs with
  | nil => rfl
  | cons p ps =>
    rw [List.headD_cons] at htop hlow ⊢
    have hstart : (if p < top then p else top) = p := by
      split
      · rfl
      · rename_i hlt
        exact BitVec.eq_of_toNat_eq (Nat.le_antisymm (BitVec.le_def.mp (BitVec.not_lt.mp hlt)) htop)
    unfold lowest
    rw [List.foldl_cons, hstart]
    have hrest : ∀ ptr ∈ ps, p.toNat ≤ ptr.toNat :=
      fun ptr hptr => hlow ptr (List.mem_cons_of_mem _ hptr)
    clear hlow htop hstart
    induction ps with
    | nil => rfl
    | cons q ps ih =>
      have hq : ¬ q < p := BitVec.not_lt.mpr (BitVec.le_def.mpr (hrest q List.mem_cons_self))
      rw [List.foldl_cons, if_neg hq]
      exact ih fun ptr hptr => hrest ptr (List.mem_cons_of_mem _ hptr)

/-! ## Words -/

theorem changesOnly_pushWords
    (h : pushWords m cursor ws = .ok m') :
      ChangesOnly cursor.toNat (cursor.toNat + 4 * ws.length) m m' := by
  induction ws generalizing m cursor with
  | nil =>
    cases h
    exact .refl _ _ _
  | cons w ws ih =>
    obtain ⟨m₁, hwrite, hrest⟩ := pushWords_cons_ok h
    obtain ⟨hfits, hnew⟩ := changesOnly_writeBytes hwrite (by rw [length_leBytes]; decide)
    rw [length_leBytes] at hfits hnew
    have hsize := m.size.isLt
    have hnext : (cursor + 4).toNat = cursor.toNat + 4 := by bv_omega
    have hold := ih hrest
    rw [hnext] at hold
    rw [List.length_cons]
    exact (hnew.mono (Nat.le_refl _) (by omega)).trans (hold.mono (by omega) (by omega))

/-- Words are written inside the memory, without a wrap. -/
theorem pushWords_fits (h : pushWords m cursor ws = .ok m')
    (hne : ws ≠ []) : cursor.toNat + 4 * ws.length ≤ m.size.toNat := by
  induction ws generalizing m cursor with
  | nil => exact absurd rfl hne
  | cons w ws ih =>
    obtain ⟨m₁, hwrite, hrest⟩ := pushWords_cons_ok h
    have hfits := Memory.writeBytes_fits hwrite (by rw [length_leBytes]; decide)
    rw [length_leBytes] at hfits
    have hnext : (cursor + 4).toNat = cursor.toNat + 4 := by bv_omega
    rw [List.length_cons]
    by_cases hnil : ws = []
    · subst hnil
      exact hfits
    · have hmore := ih hrest hnil
      rw [hnext, (Memory.writeBytes_shape hwrite).1] at hmore
      omega

/-- The stack pointer has not wrapped: the words end where the strings begin, or less than 16 bytes below. -/
theorem toNat_sp {sp low : U32} {words : Nat}
    (hsp : sp = (low &&& ~~~15) - BitVec.ofNat 32 (words * 4))
    (hfits : sp.toNat + 4 * words ≤ size.toNat) :
      sp.toNat + 4 * words + low.toNat % 16 = low.toNat := by
  have halign : (low &&& ~~~15).toNat = low.toNat - low.toNat % 16 :=
    @toNat_and_not_mask 32 low 4 (by decide)
  have hwords : (BitVec.ofNat 32 (words * 4)).toNat = words * 4 := toNat_ofNat_of_lt (by omega)
  have hnat : sp.toNat = (2 ^ 32 - words * 4 + (low.toNat - low.toNat % 16)) % 2 ^ 32 := by
    rw [hsp, BitVec.toNat_sub, halign, hwords]
  omega

theorem length_stackWords (argvPtrs envPtrs : List U32) (auxv : List (U32 × U32)) :
    (stackWords argvPtrs envPtrs auxv).length =
      1 + argvPtrs.length + 1 + envPtrs.length + 1 + 2 * (auxv.length + 1) := by
  have hflat : ∀ l : List (U32 × U32), (l.flatMap fun a =>
      [a.1, if a.1 = 31 then argvPtrs.headD a.2 else a.2]).length = 2 * l.length := by
    intro l
    induction l with
    | nil => rfl
    | cons a l ih =>
      rw [List.flatMap_cons, List.length_append, ih, List.length_cons, List.length_cons]
      simp only [List.length_cons, List.length_nil]
      omega
  simp only [stackWords, List.length_append, List.length_cons, List.length_nil, hflat]
  omega

/-! ## All of it -/

def need (argv envp : List (List U8)) (words : Nat) : Nat :=
  (total (argvOf argv) + total envp + 15) / 16 * 16 + 4 * words

structure StackLayout (m : Memory) (top : U32) (argv envp : List (List U8)) (words : Nat)
    (stack : InitialStack) : Prop where
  argv_head : (stack.argvPtrs.headD top).toNat + total (argvOf argv) = top.toNat
  env_head : (stack.envPtrs.headD (stack.argvPtrs.headD top)).toNat + total (argvOf argv) + total envp =
    top.toNat
  argv_zip : ∀ e ∈ stack.argvPtrs.zip (argvOf argv),
    top.toNat - total (argvOf argv) ≤ e.1.toNat ∧ e.1.toNat + (e.2.length + 1) ≤ top.toNat
  env_zip : ∀ e ∈ stack.envPtrs.zip envp,
    top.toNat - total (argvOf argv) - total envp ≤ e.1.toNat ∧
      e.1.toNat + (e.2.length + 1) ≤ top.toNat
  sp : need argv envp words ≤ top.toNat → stack.sp.toNat = top.toNat - need argv envp words
  data : need argv envp words ≤ top.toNat →
    ChangesOnly (top.toNat - need argv envp words) top.toNat m stack.mem

section Parts
variable {argv envp : List (List U8)} {auxv : List (U32 × U32)} {stack : InitialStack}
  (h : pushInitialStack m top argv envp auxv = .ok stack)
  (hargv : ∀ v ∈ argvOf argv, v.length + 1 < 2 ^ 32) (henv : ∀ v ∈ envp, v.length + 1 < 2 ^ 32)
include h hargv henv

/-- The strings of both lists, and then the words. -/
theorem pushInitialStack_parts : ∃ m₁ m₂,
    pushStrings m top (argvOf argv) = .ok (stack.argvPtrs, m₁) ∧
    pushStrings m₁ (stack.argvPtrs.headD top) envp = .ok (stack.envPtrs, m₂) ∧
    pushWords m₂ stack.sp (stackWords stack.argvPtrs stack.envPtrs auxv) = .ok stack.mem ∧
    (stackWords stack.argvPtrs stack.envPtrs auxv).length =
      1 + (argvOf argv).length + 1 + envp.length + 1 + 2 * (auxv.length + 1) ∧
    stack.sp.toNat + 4 * (stackWords stack.argvPtrs stack.envPtrs auxv).length +
      (stack.envPtrs.headD (stack.argvPtrs.headD top)).toNat % 16 =
        (stack.envPtrs.headD (stack.argvPtrs.headD top)).toNat := by
  obtain ⟨m₁, m₂, hpush₁, hpush₂, hsp, hwords⟩ := pushInitialStack_ok h
  obtain ⟨hsum₁, hlow₁, -, -⟩ := pushStrings_spec hpush₁ hargv
  rw [lowest_eq (by omega) hlow₁] at hpush₂ hsp
  obtain ⟨hsum₂, hlow₂, -, -⟩ := pushStrings_spec hpush₂ henv
  have hlen := length_stackWords stack.argvPtrs stack.envPtrs auxv
  rw [lowest_eq (by omega) hlow₂, ← hlen] at hsp
  refine ⟨m₁, m₂, hpush₁, hpush₂, hwords, ?_,
    toNat_sp hsp (pushWords_fits hwords (List.cons_ne_nil _ _))⟩
  rw [hlen, length_pushStrings hpush₁, length_pushStrings hpush₂]

theorem pushInitialStack_layout (htop : top.toNat % 16 = 0) :
    StackLayout m top argv envp
      (1 + (argvOf argv).length + 1 + envp.length + 1 + 2 * (auxv.length + 1)) stack := by
  obtain ⟨m₁, m₂, hpush₁, hpush₂, hwords, hlen, hsp⟩ := pushInitialStack_parts h hargv henv
  obtain ⟨hsum₁, hlow₁, hzip₁, hdata₁⟩ := pushStrings_spec hpush₁ hargv
  obtain ⟨hsum₂, hlow₂, hzip₂, hdata₂⟩ := pushStrings_spec hpush₂ henv
  have hdata₃ := changesOnly_pushWords hwords
  rw [hlen] at hdata₃ hsp
  generalize 1 + (argvOf argv).length + 1 + envp.length + 1 + 2 * (auxv.length + 1) = words at *
  refine ⟨hsum₁, by omega, ?_, ?_, ?_, ?_⟩
  · intro e he
    have := hzip₁ e he
    omega
  · intro e he
    have := hzip₂ e he
    omega
  all_goals
    intro hneed
    unfold need at hneed ⊢
  · omega
  · refine ((hdata₁.mono ?_ ?_).trans (hdata₂.mono ?_ ?_)).trans (hdata₃.mono ?_ ?_) <;> omega

end Parts

/-! ## What is asked of an image -/

def byteAt (m : Memory) (x : Nat) : Option U8 :=
  if x < m.size.toNat then some (m.data (BitVec.ofNat 32 x)) else none

/-- File data, unless later file data is over it, and zeros after it. -/
structure ContentsKept (m : Memory) (gs : List Segment) : Prop where
  file : ∀ front g back, gs = front ++ g :: back → ∀ i < g.prog.filesz.toNat,
    (∀ g' ∈ back, ¬ g'.FileHas (g.start64 + i)) → byteAt m (g.start64 + i) = g.bytes[i]?
  zero : ∀ g ∈ gs, ∀ x, g.start64 + g.prog.filesz.toNat ≤ x → x < g.end64 →
    (∀ g' ∈ gs, ¬ g'.FileHas x) → byteAt m x = some 0

/-- `n` bytes from `lo` on are in the mapping of the stack. -/
def InStack (size : U32) (lo n : Nat) : Prop :=
  (stackMapping size).start.toNat ≤ lo ∧ lo + n ≤ (stackMapping size).endAddr.toNat

def wordCount (argv envp : List (List U8)) (interp : Option Source) : Nat :=
  1 + (argvOf argv).length + 1 + envp.length + 1 + 2 * ((if interp.isSome then 12 else 11) + 1)

structure StackInside (image : Image) (argv envp : List (List U8)) (interp : Option Source) :
    Prop where
  mapped : stackMapping image.mem.size ∈ image.mem.space.mappings
  words : InStack image.mem.size (image.cpu.regs ESP).toNat (4 * wordCount argv envp interp)
  args : ∀ e ∈ image.stack.argvPtrs.zip (argvOf argv), InStack image.mem.size e.1.toNat (e.2.length + 1)
  env : ∀ e ∈ image.stack.envPtrs.zip envp, InStack image.mem.size e.1.toNat (e.2.length + 1)

structure ImageSurvives (image : Image) (gs : List Segment) (argv envp : List (List U8))
    (interp : Option Source) : Prop where
  contents : ContentsKept image.mem gs
  stack : StackInside image argv envp interp

def stackNeed (argv envp : List (List U8)) (interp : Option Source) : Nat :=
  need argv envp (wordCount argv envp interp)

theorem length_auxv (main : Source) (interp : Option Source) (randomAddr : U32) :
    (auxv main interp randomAddr).length = if interp.isSome then 12 else 11 := by
  cases interp <;> rfl

theorem exists_last_fileHas {x : Nat} (h : ∃ g ∈ gs, g.FileHas x) :
    ∃ front g back, gs = front ++ g :: back ∧ g.FileHas x ∧ ∀ g' ∈ back, ¬ g'.FileHas x := by
  induction gs with
  | nil =>
    obtain ⟨g, hg, -⟩ := h
    cases hg
  | cons g₀ gs ih =>
    by_cases hlater : ∃ g ∈ gs, g.FileHas x
    · obtain ⟨front, g, back, rfl, hg⟩ := ih hlater
      exact ⟨g₀ :: front, g, back, rfl, hg⟩
    obtain ⟨g, hg, hx⟩ := h
    rcases List.mem_cons.mp hg with rfl | hg
    · exact ⟨[], g, gs, rfl, hx, fun g' hg' hx' => hlater ⟨g', hg', hx'⟩⟩
    · exact absurd ⟨g, hg, hx⟩ hlater

theorem ContentsKept.memsz_eq_zero (h : ContentsKept m gs)
    (hv : ∀ g ∈ gs, g.Valid) {g : Segment} (hg : g ∈ gs) (htop : g.end64 = 2 ^ 32) :
      g.prog.memsz = 0 := by
  by_contra hne
  have hpos : 0 < g.prog.memsz.toNat := by
    by_contra hn
    exact hne (BitVec.eq_of_toNat_eq (Nat.eq_zero_of_not_pos hn))
  have hnone : byteAt m (2 ^ 32 - 1) = none := by
    have := m.size.isLt
    exact if_neg (by omega)
  have hend : g.start64 + g.prog.memsz.toNat = 2 ^ 32 := htop
  by_cases hfile : ∃ g' ∈ gs, g'.FileHas (2 ^ 32 - 1)
  · obtain ⟨front, g', back, rfl, ⟨hlo, hhi⟩, hback⟩ := exists_last_fileHas hfile
    have hx : g'.start64 + (2 ^ 32 - 1 - g'.start64) = 2 ^ 32 - 1 := by omega
    have hbyte := h.file front g' back rfl (2 ^ 32 - 1 - g'.start64) (by omega) (by rw [hx]; exact hback)
    have hlen := (hv g' (List.mem_append_right _ List.mem_cons_self)).length
    rw [hx, hnone, List.getElem?_eq_getElem (by omega)] at hbyte
    cases hbyte
  · have hzero := h.zero g hg (2 ^ 32 - 1) ?_ (by omega) fun g' hg' hx => hfile ⟨g', hg', hx⟩
    · rw [hnone] at hzero
      cases hzero
    · by_contra hlt
      exact hfile ⟨g, hg, by omega, by omega⟩

/-! ## What a load leaves -/

/-- An image, and the memory `m` as it was before the stack. -/
structure Loaded (image : Image) (gs : List Segment) (argv envp : List (List U8)) (words : Nat)
    (m : Memory) (top : U32) : Prop where
  page : image.mem.size.toNat % 4096 = 0
  large : defaultMemory ≤ image.mem.size.toNat
  room : (∀ g ∈ gs, g.end64 < 2 ^ 32) →
    ∀ g ∈ gs, g.end64 + stackReserve + pageSize ≤ image.mem.size.toNat
  file : ∀ front g back, gs = front ++ g :: back → ∀ i < g.prog.filesz.toNat,
    (∀ g' ∈ back, ¬ g'.FileHas (g.start64 + i)) → g.start64 + i < image.mem.size.toNat ∧
      some (m.data (BitVec.ofNat 32 (g.start64 + i))) = g.bytes[i]?
  zero : ∀ x < 2 ^ 32, (∀ g ∈ gs, ¬ g.FileHas x) → m.data (BitVec.ofNat 32 x) = 0
  mapped : stackMapping image.mem.size ∈ image.mem.space.mappings
  top_eq : top.toNat = image.mem.size.toNat - pageSize
  esp : image.cpu.regs ESP = image.stack.sp
  mem : image.mem.data = image.stack.mem.data
  argv_length : image.stack.argvPtrs.length = (argvOf argv).length
  env_length : image.stack.envPtrs.length = envp.length
  layout : (∀ v ∈ argvOf argv, v.length + 1 < 2 ^ 32) → (∀ v ∈ envp, v.length + 1 < 2 ^ 32) →
    ∃ m₁, ChangesOnly (top.toNat - 16) top.toNat m m₁ ∧
      StackLayout m₁ top argv envp words image.stack

theorem size_ofNewAddressSpace (hlarge : defaultMemory ≤ size.toNat) :
    (Memory.ofNewAddressSpace size).size = size := by
  unfold defaultMemory at hlarge
  have hmax : (AddressSpace.new size).max = size := if_neg (by bv_omega)
  have hne : ¬ size = 0 := by bv_omega
  show (if (AddressSpace.new size).max = 0 then 1 else (AddressSpace.new size).max) = size
  rw [hmax, if_neg hne]

theorem toNat_stackTop (hsize : m.size = size) (hpage : size.toNat % 4096 = 0)
    (hlarge : defaultMemory ≤ size.toNat) : (stackTop m).toNat = size.toNat - pageSize := by
  unfold defaultMemory at hlarge
  have hsub : (size - BitVec.ofNat 32 pageSize).toNat = size.toNat - 4096 :=
    BitVec.toNat_sub_of_le (BitVec.le_def.mpr (show 4096 ≤ size.toNat by omega))
  have halign := @toNat_and_not_mask 32 (size - BitVec.ofNat 32 pageSize) 4 (by decide)
  show ((m.size - BitVec.ofNat 32 pageSize) &&& ~~~15).toNat = size.toNat - 4096
  rw [hsize, show (15 : U32) = BitVec.ofNat 32 (2 ^ 4 - 1) from rfl, halign, hsub]
  omega

theorem loaded {parse : Parser} {resolve : Option FileResolver} {random : Option (Vector U8 16)}
    {data : List U8} {argv envp : List (List U8)} {image : Image} {main : Source}
      {interp : Option Source}
    (hfiles : openFiles parse resolve data = .ok (main, interp))
    (hload : loadWithEnvResolver parse resolve random data argv envp = .ok image) :
    ∃ m top, Loaded image (allSegments main interp) argv envp (wordCount argv envp interp) m top := by
  obtain ⟨size, brk, m, stack, hsize, hplace, hstack, rfl⟩ := loadWithEnvResolver_ok hfiles hload
  obtain ⟨m₁, space, hsegs, hadd, rfl⟩ := placeImage_ok hplace
  obtain ⟨-, hpage, hlarge, hroom⟩ := memorySize_ok hsize
  obtain ⟨hsize₁, hzero, hfile⟩ := loadSegments_data (valid_allSegments hfiles) hsegs
  have hshape := sameShape_buildStack hstack
  have hnew := size_ofNewAddressSpace hlarge
  have hmem : stack.mem.size = size := hshape.size.trans (hsize₁.trans hnew)
  have htop : (stackTop { m₁ with space := space }).toNat = size.toNat - pageSize :=
    toNat_stackTop (hsize₁.trans hnew) hpage hlarge
  obtain ⟨bytes, m₂, -, hrandom, hpush⟩ := buildStack_ok hstack
  obtain ⟨m₃, m₄, hargv, henv, -, -⟩ := pushInitialStack_ok hpush
  refine ⟨m₁, stackTop { m₁ with space := space }, ?_⟩
  have himage : (makeImage main interp brk envp stack).mem.size = size := hmem
  refine
    { page := himage ▸ hpage, large := himage ▸ hlarge, room := himage ▸ hroom
      file := ?_, zero := hzero, mapped := ?_, top_eq := himage ▸ htop
      esp := ?_, mem := rfl
      argv_length := length_pushStrings hargv, env_length := length_pushStrings henv, layout := ?_ }
  · intro front g back hgs i hi hback
    have := hfile front g back hgs i hi hback
    rw [hnew] at this
    rw [himage]
    exact this
  · show stackMapping stack.mem.size ∈ stack.mem.space.mappings
    rw [hshape.space, hshape.size]
    obtain ⟨-, -, rfl⟩ := AddressSpace.add_ok hadd
    exact (List.mem_insertionSort _).mpr (List.mem_append_right _ (List.mem_singleton.mpr rfl))
  · simp only [makeImage, Function.update_self]
  intro hargv' henv'
  obtain ⟨-, hrandom'⟩ := changesOnly_writeBytes hrandom (by rw [Vector.length_toList]; decide)
  unfold pageSize defaultMemory at *
  have hlow : (stackTop { m₁ with space := space } - 16).toNat =
      (stackTop { m₁ with space := space }).toNat - 16 :=
    BitVec.toNat_sub_of_le (BitVec.le_def.mpr (show 16 ≤ _ by omega))
  rw [Vector.length_toList, hlow] at hrandom'
  refine ⟨m₂, hrandom'.mono (Nat.le_refl _) (by omega), ?_⟩
  have hlayout := pushInitialStack_layout hpush hargv' henv' (by omega)
  rw [length_auxv] at hlayout
  exact hlayout

/-! ## The image and its stack -/

theorem le_total (h : v ∈ vs) : v.length + 1 ≤ total vs := by
  induction vs with
  | nil => cases h
  | cons w vs ih =>
    have hcons : total (w :: vs) = w.length + 1 + total vs := rfl
    rcases List.mem_cons.mp h with rfl | h
    · omega
    · have := ih h
      omega

theorem argvOf_ne_nil (argv : List (List U8)) : argvOf argv ≠ [] := by
  unfold argvOf
  split
  · exact List.cons_ne_nil _ _
  · assumption

theorem exists_of_zip (hlen : ptrs.length = vs.length) (hv : v ∈ vs) :
    ∃ ptr, (ptr, v) ∈ ptrs.zip vs := by
  have hsnd : (ptrs.zip vs).map Prod.snd = vs := List.map_snd_zip (Nat.le_of_eq hlen.symm)
  rw [← hsnd] at hv
  obtain ⟨e, he, rfl⟩ := List.mem_map.mp hv
  exact ⟨e.1, he⟩

theorem head_mem_zip (hlen : ptrs.length = vs.length) (hne : vs ≠ []) (top : U32) :
    ∃ v, (ptrs.headD top, v) ∈ ptrs.zip vs := by
  cases vs with
  | nil => exact absurd rfl hne
  | cons v vs =>
    cases ptrs with
    | nil => cases hlen
    | cons ptr ptrs => exact ⟨v, List.mem_cons_self⟩

section Bounds

variable {image : Image} {gs : List Segment} {argv envp : List (List U8)} {interp : Option Source}
  {m : Memory} {top : U32} (h : Loaded image gs argv envp (wordCount argv envp interp) m top)
include h

theorem Loaded.inStack_iff (lo n : Nat) :
    InStack image.mem.size lo n ↔ image.mem.size.toNat - stackReserve ≤ lo ∧
      lo + n ≤ top.toNat := by
  have hlarge := h.large
  have htop := h.top_eq
  unfold defaultMemory pageSize at *
  have hstart : (stackMapping image.mem.size).start.toNat = image.mem.size.toNat - stackReserve :=
    BitVec.toNat_sub_of_le (BitVec.le_def.mpr (show 8 * 2 ^ 20 ≤ image.mem.size.toNat by omega))
  have hend : (stackMapping image.mem.size).endAddr.toNat = top.toNat := by
    have hsum : (stackMapping image.mem.size).endAddr.toNat =
        ((stackMapping image.mem.size).start.toNat + (8 * 2 ^ 20 - 4096)) % 2 ^ 32 :=
          BitVec.toNat_add _ _
    have hlt := image.mem.size.isLt
    rw [hsum, hstart]
    unfold stackReserve
    omega
  unfold InStack
  rw [hstart, hend]

theorem Loaded.fits (hs : StackInside image argv envp interp) :
    stackNeed argv envp interp ≤ stackReserve - pageSize := by
  have hlarge := h.large
  have htop := h.top_eq
  have htop32 := top.isLt
  have hlt : ∀ {ptrs : List U32} {vs : List (List U8)}, ptrs.length = vs.length →
      (∀ e ∈ ptrs.zip vs, InStack image.mem.size e.1.toNat (e.2.length + 1)) →
      ∀ v ∈ vs, v.length + 1 < 2 ^ 32 := by
    intro ptrs vs hlen hin v hv
    obtain ⟨ptr, hptr⟩ := exists_of_zip hlen hv
    have hhigh := ((h.inStack_iff _ _).mp (hin _ hptr)).2
    dsimp only at hhigh
    omega
  obtain ⟨m₁, -, hlayout⟩ := h.layout (hlt h.argv_length hs.args) (hlt h.env_length hs.env)
  have hargs : image.mem.size.toNat - stackReserve + total (argvOf argv) ≤ top.toNat := by
    obtain ⟨v, hv⟩ := head_mem_zip h.argv_length (argvOf_ne_nil argv) top
    have hlow := ((h.inStack_iff _ _).mp (hs.args _ hv)).1
    have := hlayout.argv_head
    dsimp only at hlow
    omega
  have henv : image.mem.size.toNat - stackReserve + total (argvOf argv) + total envp ≤ top.toNat := by
    by_cases hnil : envp = []
    · have hzero : total envp = 0 := by rw [hnil]; rfl
      omega
    obtain ⟨v, hv⟩ := head_mem_zip h.env_length hnil (image.stack.argvPtrs.headD top)
    have hlow := ((h.inStack_iff _ _).mp (hs.env _ hv)).1
    have := hlayout.env_head
    dsimp only at hlow
    omega
  -- as many strings as bytes at most, so the words fit in the memory
  have hcount₁ := length_le_total (argvOf argv)
  have hcount₂ := length_le_total envp
  have hwords : wordCount argv envp interp ≤ total (argvOf argv) + total envp + 29 := by
    unfold wordCount
    split <;> omega
  have hneed : need argv envp (wordCount argv envp interp) ≤ top.toNat := by
    unfold need
    unfold stackReserve pageSize defaultMemory at *
    omega
  have hesp := ((h.inStack_iff _ _).mp hs.words).1
  rw [h.esp, hlayout.sp hneed] at hesp
  unfold stackNeed
  unfold stackReserve pageSize defaultMemory at *
  omega

theorem Loaded.survives (hv : ∀ g ∈ gs, g.Valid) (hends : ∀ g ∈ gs, g.end64 < 2 ^ 32)
    (hfits : stackNeed argv envp interp ≤ stackReserve - pageSize) :
    ImageSurvives image gs argv envp interp := by
  have hlarge := h.large
  have htop := h.top_eq
  have hroom := h.room hends
  have htotal : total (argvOf argv) + total envp + 4 * wordCount argv envp interp ≤
      stackReserve - pageSize := by
    unfold stackNeed need at hfits
    omega
  have hlt : ∀ {vs : List (List U8)}, total vs ≤ stackReserve →
    ∀ v ∈ vs, v.length + 1 < 2 ^ 32 := by
    intro vs hvs v hv
    have := le_total hv
    unfold stackReserve at hvs
    omega
  obtain ⟨m₁, hrandom, hlayout⟩ := h.layout (hlt (by omega)) (hlt (by omega))
  have hneed : need argv envp (wordCount argv envp interp) ≤ top.toNat := by
    unfold stackNeed at hfits
    unfold stackReserve pageSize defaultMemory at *
    omega
  have hsp := hlayout.sp hneed
  -- nothing below the mapping of the stack has changed
  have hkept : ∀ x < 2 ^ 32, x < image.mem.size.toNat - stackReserve →
      image.mem.data (BitVec.ofNat 32 x) = m.data (BitVec.ofNat 32 x) := by
    intro x hx hlow
    have hx' : (BitVec.ofNat 32 x).toNat = x := toNat_ofNat_of_lt hx
    unfold stackNeed at hfits
    unfold stackReserve pageSize defaultMemory at *
    rw [h.mem, hlayout.data hneed _ (by omega), hrandom _ (by omega)]
  have hsize := image.mem.size.isLt
  refine ⟨⟨?_, ?_⟩, h.mapped, ?_, ?_, ?_⟩
  · intro front g back hgs i hi hback
    obtain ⟨hmem, hbyte⟩ := h.file front g back hgs i hi hback
    have hg : g ∈ gs := by
      rw [hgs]
      exact List.mem_append_right _ List.mem_cons_self
    have hend : g.start64 + g.prog.memsz.toNat + stackReserve + pageSize ≤ image.mem.size.toNat :=
      hroom g hg
    have hle := (hv g hg).filesz_le
    rw [byteAt, if_pos hmem, hkept _ (by omega) (by omega), hbyte]
  · intro g hg x hlo hhi hnone
    have hend := hroom g hg
    rw [byteAt, if_pos (by omega), hkept x (by omega) (by omega), h.zero x (by omega) hnone]
  · rw [h.inStack_iff, h.esp, hsp]
    unfold stackNeed need at *
    unfold stackReserve pageSize defaultMemory at *
    omega
  · intro e he
    rw [h.inStack_iff]
    have := hlayout.argv_zip e he
    unfold stackReserve pageSize defaultMemory at *
    omega
  intro e he
  rw [h.inStack_iff]
  have := hlayout.env_zip e he
  unfold stackReserve pageSize defaultMemory at *
  omega

end Bounds

/-- The image survives its stack if the stack fits into its mapping and no segment ends at the very
top; if it does survive, the stack fits, and only an empty segment ends there. -/
theorem image_survives {parse : Parser} {resolve : Option FileResolver}
    {random : Option (Vector U8 16)}
    {data : List U8} {argv envp : List (List U8)} {image : Image} {main : Source}
      {interp : Option Source}
    (hfiles : openFiles parse resolve data = .ok (main, interp))
    (hload : loadWithEnvResolver parse resolve random data argv envp = .ok image) :
    (stackNeed argv envp interp ≤ stackReserve - pageSize →
      (∀ g ∈ allSegments main interp, g.end64 < 2 ^ 32) →
        ImageSurvives image (allSegments main interp) argv envp interp) ∧
    (ImageSurvives image (allSegments main interp) argv envp interp →
      stackNeed argv envp interp ≤ stackReserve - pageSize ∧
        ∀ g ∈ allSegments main interp, g.end64 = 2 ^ 32 → g.prog.memsz = 0) := by
  obtain ⟨m, top, h⟩ := loaded hfiles hload
  have hv := valid_allSegments hfiles
  refine ⟨fun hfits hends => h.survives hv hends hfits, ?_⟩
  intro hs
  refine ⟨h.fits hs.stack, ?_⟩
  intro g hg htop
  exact hs.contents.memsz_eq_zero hv hg htop

/-! ## A long argument -/

theorem pushWords_succeeds (hp : m.isProtected = false)
    (hfits : cursor.toNat + 4 * ws.length ≤ m.size.toNat) :
      ∃ m', pushWords m cursor ws = .ok m' := by
  induction ws generalizing m cursor with
  | nil => exact ⟨m, rfl⟩
  | cons w ws ih =>
    rw [List.length_cons] at hfits
    have hsize := m.size.isLt
    have hwrite : m.write32 cursor w =
      .ok { m with data := storeBytes m.data cursor (leBytes w 4) } :=
      Memory.writeBytes_unprotected hp (by rw [length_leBytes]; omega)
    have hnext : (cursor + 4).toNat = cursor.toNat + 4 := by bv_omega
    have hrest : (cursor + 4).toNat + 4 * ws.length ≤ m.size.toNat := by omega
    obtain ⟨m', hm'⟩ := ih (m := { m with data := storeBytes m.data cursor (leBytes w 4) }) hp hrest
    refine ⟨m', ?_⟩
    simp only [pushWords, hwrite, hm']

/-- A string of `0x7ffd7ff` bytes begins at `0x1800`, and the words end there. -/
theorem pushInitialStack_long (hp : m.isProtected = false) (hsize : m.size = 0x8000000)
    (hlen : v.length = 0x7ffd7ff) {auxv : List (U32 × U32)} (haux : auxv.length = 11) :
    ∃ stack, pushInitialStack m 0x7fff000 [v] [] auxv = .ok stack ∧
      some (stack.mem.data 0x1900) = v[0x100]? := by
  have hbytes : (v ++ [(0 : U8)]).length =
    0x7ffd800 := by rw [List.length_append, hlen, List.length_singleton]
  have hwrite := Memory.writeBytes_unprotected hp
    (show (0x1800 : U32).toNat + (v ++ [(0 : U8)]).length ≤ m.size.toNat by rw [hbytes, hsize]; decide)
  have hpush : pushStrings m 0x7fff000 (argvOf [v]) =
      .ok ([0x1800], { m with data := storeBytes m.data 0x1800 (v ++ [0]) }) := by
    rw [argvOf, if_neg (List.cons_ne_nil _ _)]
    simp only [pushStrings, List.headD_nil, hbytes,
      if_neg (show ¬ BitVec.ofNat 32 0x7ffd800 > 0x7fff000 by decide),
      show (0x7fff000 : U32) - BitVec.ofNat 32 0x7ffd800 = 0x1800 by decide, hwrite]
  have hcount := length_stackWords [0x1800] [] auxv
  rw [haux] at hcount
  obtain ⟨m', hwords⟩ := pushWords_succeeds
    (m := { m with data := storeBytes m.data 0x1800 (v ++ [0]) }) hp
    (show (0x1790 : U32).toNat + 4 * (stackWords [0x1800] [] auxv).length ≤ m.size.toNat by
      rw [hcount, hsize]; decide)
  refine ⟨⟨0x1790, m', [0x1800], []⟩, ?_, ?_⟩
  · have hsp : (lowest (lowest 0x7fff000 [0x1800]) [] &&& ~~~15) -
        BitVec.ofNat 32 ((1 + [(0x1800 : U32)].length + 1 + ([] : List U32).length + 1 + 2 * (11 + 1)) * 4) =
        0x1790 := by decide
    simp only [pushInitialStack, hpush, pushStrings, haux, hsp, hwords]
  show some (m'.data _) = _
  have hold := changesOnly_pushWords hwords
  rw [hcount] at hold
  rw [hold _ (Or.inr (by decide)), ← List.getElem?_append_left (by rw [hlen]; decide)]
  exact storeBytes_inside (by rw [hbytes]; decide) (by decide) (by rw [hbytes]; decide)

/-- A file without contents: `[0x1000, 0x2000)` is to be zero. -/
def onePage : File :=
  { supported := true, entry := 0x1000, progs := [⟨.load, 6, 0, 0x1000, 0, 0x1000⟩] }

def onePageMain : Source := ⟨onePage, [], 0, "ELF PT_LOAD"⟩

def loadOnePage (argv : List (List U8)) : Except LoadError Image :=
  loadWithEnvResolver (fun _ => some onePage) none (some (Vector.replicate 16 0)) [] argv []

theorem onePage_ends : ∀ g ∈ allSegments onePageMain none, g.end64 < 2 ^ 32 := by
  intro g hg
  rw [List.mem_singleton.mp hg]
  decide

/-- Without arguments. -/
theorem image_survives_onePage :
    ∃ image, loadOnePage [] = .ok image ∧
      ImageSurvives image (allSegments onePageMain none) [] [] none := by
  have hfiles : openFiles (fun _ => some onePage) none [] = .ok (onePageMain, none) := rfl
  have hok : (loadOnePage []).isOk = true := by decide +kernel
  cases hload : loadOnePage [] with
  | error e =>
    rw [hload] at hok
    cases hok
  | ok image => exact ⟨image, rfl, (image_survives hfiles hload).1 (by decide) onePage_ends⟩

theorem onePage_placed : ∃ m, placeImage 0x8000000 (allSegments onePageMain none) = .ok m ∧
    m.size = 0x8000000 ∧ m.isProtected = false := by
  have hok : (placeImage 0x8000000 (allSegments onePageMain none)).map
      (fun m => (m.size, m.isProtected)) = .ok (0x8000000, false) := by decide +kernel
  cases hplace : placeImage 0x8000000 (allSegments onePageMain none) with
  | error e =>
    rw [hplace] at hok
    cases hok
  | ok m =>
    rw [hplace] at hok
    obtain ⟨hsize, hprot⟩ := Prod.mk.inj (Except.ok.inj hok)
    exact ⟨m, rfl, hsize, hprot⟩

/-- An argument of almost 128 MiB reaches down to `0x1800`, and is in the segment. -/
theorem longArgument_overwrites :
    ∃ image, loadOnePage [List.replicate 0x7ffd7ff 0x61] = .ok image ∧
      byteAt image.mem 0x1900 = some 0x61 ∧
      ¬ ImageSurvives image (allSegments onePageMain none) [List.replicate 0x7ffd7ff 0x61] [] none := by
  obtain ⟨v, hv⟩ : ∃ v : List U8, List.replicate 0x7ffd7ff 0x61 = v := ⟨_, rfl⟩
  have hlen : v.length = 0x7ffd7ff := by rw [← hv, List.length_replicate]
  have hbyte : v[0x100]? = some 0x61 := by
    rw [← hv, List.getElem?_replicate]
    exact if_pos (by decide)
  rw [hv]
  obtain ⟨m, hplace, hsize, hprot⟩ := onePage_placed
  have htop : stackTop m = 0x7fff000 := by
    unfold stackTop
    rw [hsize]
    decide
  have hrandom := Memory.writeBytes_unprotected hprot
    (show (0x7fff000 - 16 : U32).toNat + (Vector.replicate 16 (0 : U8)).toList.length ≤ m.size.toNat by
      rw [hsize]
      decide)
  obtain ⟨stack, hpush, hdata⟩ := pushInitialStack_long
    (m := { m with data := storeBytes m.data (0x7fff000 - 16) (Vector.replicate 16 (0 : U8)).toList }) hprot
    hsize hlen (length_auxv onePageMain none (0x7fff000 - 16))
  have hstack : buildStack m onePageMain none (some (Vector.replicate 16 0)) [v] [] =
    .ok stack := by
    simp only [buildStack, htop, hrandom, hpush]
  have hmemory : memorySize onePageMain none = .ok (0x8000000, 0x2000) := by decide +kernel
  have himage : byteAt (makeImage onePageMain none 0x2000 [] stack).mem 0x1900 = some 0x61 := by
    have hin : 0x1900 < stack.mem.size.toNat := by
      rw [(sameShape_buildStack hstack).size, hsize]
      decide
    exact (if_pos hin).trans (hdata.trans hbyte)
  refine ⟨makeImage onePageMain none 0x2000 [] stack, ?_, himage, ?_⟩
  · have hfiles : openFiles (fun _ => some onePage) none [] = .ok (onePageMain, none) := rfl
    simp only [loadOnePage, loadWithEnvResolver, hfiles, hmemory, hplace, hstack]
  intro hs
  have hzero := hs.contents.zero _ (List.mem_singleton.mpr rfl) 0x1900 (by decide) (by decide) ?_
  · rw [himage] at hzero
    exact absurd (Option.some.inj hzero) (by decide)
  · rintro g hg ⟨-, hhi⟩
    rw [List.mem_singleton.mp hg] at hhi
    exact absurd hhi (by decide)

end IshGo.Elf32
