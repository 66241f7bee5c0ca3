/-
# `IshGo.Kernel.Break` — the program break

`brk` of `internal/kernel/syscall.go`, and what it keeps along runs in which it alternates with
`mmap2` (without `MAP_FIXED`).
-/
import IshGo.Kernel.Anonymous

namespace IshGo.Kernel

open I386 I386.AddressSpace Lib

variable {mem : Memory} {newPages v : U32} {s : KState}
variable {mem' : Memory} {next oldPages x : U32} {s' : KState} {space : AddressSpace}

/-! ## `brk` -/

def fsRootLimit (memory : U32) : U32 := memory - 64 * 1024

/-- The pages between two breaks are mapped and cleared; the error if that fails. -/
def growHeap (mem : Memory) (oldPages newPages : U32) : Option U32 × Memory :=
  let r := mem.space.mapAnonymous oldPages (newPages - oldPages) (protRead ||| protWrite) "[heap]"
  let mem := { mem with space := r.2 }
  match r.1 with
  | .error _ => (some enomem, mem)
  | .ok _ =>
    match mem.writeBytes oldPages (zeroBytes (newPages - oldPages)) with
    | .error _ => (some efault, mem)
    | .ok mem => (none, mem)

/-- The heap is made to end at `newPages`. -/
def moveHeap (mem : Memory) (heapEnd oldPages newPages : U32) : Option U32 × Memory :=
  if newPages > oldPages then growHeap mem oldPages newPages
  else if newPages < oldPages ∧ heapEnd ≥ oldPages then
    (none, Memory.discard mem newPages (oldPages - newPages))
  else (none, mem)

def KState.setBreak (s : KState) (requested : U32) : KState :=
  let heapEnd := if requested > s.kern.heapEnd then pageAlignUp requested else s.kern.heapEnd
  { s with kern := { s.kern with brk := requested, heapEnd := heapEnd } }

def KState.brk (s : KState) (requested : U32) : KState :=
  if requested = 0 then s.ret s.kern.brk
  else if s.kern.heapStart ≠ 0 ∧ requested < s.kern.heapStart then s.ret s.kern.brk
  else if requested ≥ fsRootLimit s.mem.size then s.ret efault
  else
    let r := moveHeap s.mem s.kern.heapEnd (pageAlignUp s.kern.brk) (pageAlignUp requested)
    match r.1 with
    | some e => { s with mem := r.2 }.ret e
    | none => ({ s with mem := r.2 }.setBreak requested).ret requested

/-! ## Runs -/

/-- A call of `brk`, a call of `mmap2` without `MAP_FIXED`, or instructions of the guest, which
change its registers and its bytes. -/
inductive BreakCall where
  | brk (requested : U32)
  | mmap2 (addr length linuxProt flags : U32) (fd : Int) (pageOffset : U32)
      (anywhere : flags &&& 0x10 = 0)
  | guest (cpu : CPU) (data : U32 → U8)

def BreakCall.run (readAt : ReadAt) (s : KState) : BreakCall → KState
  | brk requested => s.brk requested
  | mmap2 addr length linuxProt flags fd pageOffset _ =>
    s.mmap2 readAt addr length linuxProt flags fd pageOffset
  | guest cpu data => { s with cpu := cpu, mem := { s.mem with data := data } }

def BreakCall.runAll (readAt : ReadAt) (s : KState) (cs : List BreakCall) : KState :=
  cs.foldl (BreakCall.run readAt) s

structure KState.BreakHolds (s : KState) : Prop where
  ordered : s.kern.heapStart ≤ s.kern.brk ∧ s.kern.brk ≤ s.kern.heapEnd
  mapped : ∀ x, s.kern.heapStart ≤ x → x < pageAlignUp s.kern.brk →
    ∃ m, s.mem.space.mappingAt x = some m ∧ m.prot = protRead ||| protWrite
  bare : ∀ x, pageAlignUp s.kern.brk ≤ x → x < pageAlignUp s.kern.heapEnd →
    ∀ m, s.mem.space.mappingAt x = some m → m.name ≠ "[heap]"

/-- What a call of `brk` leaves alone, and what it clears. -/
structure BrkExact (s s' : KState) (requested : U32) : Prop where
  refused : s'.cpu.regs EAX ≠ requested →
    s'.kern = s.kern ∧ s'.mem.space.mappings = s.mem.space.mappings ∧ s'.mem.data = s.mem.data
  cleared : ∀ x, pageAlignUp s.kern.brk ≤ x → x < pageAlignUp s'.kern.brk → s'.mem.read8 x = .ok 0

/-! ## Rounding -/

theorem toNat_pageAlignUp (h : v.toNat ≤ 0xfffff000) : (pageAlignUp v).toNat = roundUp v := by
  have hpage := toNat_and_not_page (v + 4095)
  have hsum : (v + 4095).toNat = v.toNat + 4095 := by bv_omega
  rw [pageAlignUp, if_neg (by bv_omega), hpage, hsum, roundUp]
  omega

theorem pageAlignUp_high (h : 0xfffff000 < v.toNat) : pageAlignUp v = 0xffffffff :=
  if_pos (by bv_omega)

theorem le_roundUp (v : U32) : v.toNat ≤ roundUp v := by
  unfold roundUp
  omega

theorem roundUp_le {n : Nat} (h : v.toNat ≤ n) (hpage : n % 4096 = 0) : roundUp v ≤ n := by
  unfold roundUp
  omega

theorem roundUp_page (v : U32) : roundUp v % 4096 = 0 := by
  unfold roundUp
  omega

theorem roundUp_of_page (h : v.toNat % 4096 = 0) : roundUp v = v.toNat := by
  unfold roundUp
  omega

/-! ## The invariant -/

/-- `BreakHolds`, in exact arithmetic, with what the calls need to keep it: the heap starts and
ends at a page, and its mappings do not reach beyond the break. -/
structure HeapInv (s : KState) : Prop where
  memory : ProcessMemory s.mem
  pos : s.kern.heapStart ≠ 0
  startPage : s.kern.heapStart.toNat % 4096 = 0
  endPage : s.kern.heapEnd.toNat % 4096 = 0
  low : s.kern.heapStart.toNat ≤ s.kern.brk.toNat
  high : s.kern.brk.toNat ≤ s.kern.heapEnd.toNat
  mapped : ∀ x : U32, s.kern.heapStart.toNat ≤ x.toNat → x.toNat < roundUp s.kern.brk →
    ∃ m, s.mem.space.mappingAt x = some m ∧ m.prot = protRead ||| protWrite ∧
      m.endAddr.toNat ≤ roundUp s.kern.brk
  bare : ∀ x : U32, roundUp s.kern.brk ≤ x.toNat → x.toNat < s.kern.heapEnd.toNat →
    ∀ m, s.mem.space.mappingAt x = some m → m.name ≠ "[heap]"

theorem HeapInv.roundUp_le_end (h : HeapInv s) : roundUp s.kern.brk ≤ s.kern.heapEnd.toNat :=
  roundUp_le h.high h.endPage

theorem HeapInv.end_le (h : HeapInv s) : s.kern.heapEnd.toNat ≤ 0xfffff000 := by
  have := h.endPage
  omega

theorem HeapInv.pageAlignUp_brk (h : HeapInv s) : (pageAlignUp s.kern.brk).toNat = roundUp s.kern.brk :=
  toNat_pageAlignUp (h.high.trans h.end_le)

theorem HeapInv.pageAlignUp_end (h : HeapInv s) : (pageAlignUp s.kern.heapEnd).toNat = s.kern.heapEnd.toNat :=
  (toNat_pageAlignUp h.end_le).trans (roundUp_of_page h.endPage)

theorem HeapInv.holds (h : HeapInv s) : s.BreakHolds := by
  have hbrk := h.pageAlignUp_brk
  have hend := h.pageAlignUp_end
  refine ⟨⟨h.low, h.high⟩, ?_, ?_⟩
  · intro x hlow hhigh
    obtain ⟨m, hat, hprot, _⟩ := h.mapped x hlow (by bv_omega)
    exact ⟨m, hat, hprot⟩
  · intro x hlow hhigh
    exact h.bare x (by bv_omega) (by bv_omega)

theorem HeapInv.initial (hmem : ProcessMemory s.mem) (hend : s.kern.heapEnd = s.kern.heapStart)
    (hbrk : s.kern.brk = s.kern.heapStart) (hpos : s.kern.heapStart ≠ 0)
    (hpage : s.kern.heapStart &&& 0xfff = 0) : HeapInv s := by
  have hpage := and_page_eq_zero.mp hpage
  have hround := roundUp_of_page hpage
  refine ⟨hmem, hpos, hpage, by rw [hend]; exact hpage, by rw [hbrk], by rw [hbrk, hend], ?_, ?_⟩
  · intro x hlow hhigh
    rw [hbrk, hround] at hhigh
    omega
  intro x hlow hhigh
  rw [hbrk, hround] at hlow
  rw [hend] at hhigh
  omega

/-! ## A call that leaves the break alone -/

/-- The table keeps what it has, and gains nothing that is called the heap. -/
structure Gains (mem mem' : Memory) : Prop where
  memory : ProcessMemory mem'
  old : ∀ x m, mem.space.mappingAt x = some m → mem'.space.mappingAt x = some m
  new : ∀ x m, mem'.space.mappingAt x = some m →
    mem.space.mappingAt x = some m ∨ m.name ≠ "[heap]"

theorem HeapInv.gains (h : HeapInv s) (hkern : s'.kern = s.kern)
    (hmem : Gains s.mem s'.mem) : HeapInv s' := by
  refine ⟨hmem.memory, ?_, ?_, ?_, ?_, ?_, ?_, ?_⟩
  all_goals rw [hkern]
  · exact h.pos
  · exact h.startPage
  · exact h.endPage
  · exact h.low
  · exact h.high
  · intro x hlow hhigh
    obtain ⟨m, hat, hm⟩ := h.mapped x hlow hhigh
    exact ⟨m, hmem.old x m hat, hm⟩
  intro x hlow hhigh m hat
  rcases hmem.new x m hat with hold | hname
  · exact h.bare x hlow hhigh m hold
  · exact hname

theorem Gains.of_mappings (h : ProcessMemory mem)
    (hmappings : mem'.space.mappings = mem.space.mappings) (hmax : mem'.space.max = mem.space.max)
    (hprot : mem'.isProtected = mem.isProtected) (hsize : mem'.size = mem.size) : Gains mem mem' := by
  have hat : mem'.space.mappingAt = mem.space.mappingAt := by
    funext x
    rw [mappingAt, mappingAt, hmappings]
  refine ⟨⟨?_, hprot.trans h.isProtected, ?_⟩, ?_, ?_⟩
  · have := wellFormed_iff.mp h.wellFormed
    rw [← hmappings, ← hmax] at this
    exact wellFormed_iff.mpr this
  · rw [hsize, hmax, h.size]
  · intro x m hm
    rw [hat]
    exact hm
  · intro x m hm
    rw [hat] at hm
    exact Or.inl hm

theorem Gains.of_add (h : ProcessMemory mem) {mapped size : U32}
    {prot : U8} {name : String} (hname : name ≠ "[heap]")
    (hadd : { mem.space with nextHint := next }.add mapped size prot name = .ok space)
    {bytes : List U8} (hw : { mem with space := space }.writeBytes mapped bytes = .ok mem') :
    Gains mem mem' := by
  have hspace : mem'.space = space := (Memory.writeBytes_shape hw).2.1
  have hwf := h.wellFormed.nextHint next
  refine ⟨(h.add hadd).writeBytes hw, ?_, ?_⟩
  · intro x m hm
    rw [hspace]
    refine (hwf.mappingAt_add_outside hadd ?_).trans hm
    intro hx
    have hnone : mem.space.mappingAt x = none := hwf.mappingAt_before_add hadd hx
    rw [hm] at hnone
    cases hnone
  intro x m hm
  rw [hspace] at hm
  by_cases hx : InRange mapped size x
  · rw [hwf.mappingAt_add_inside hadd hx] at hm
    cases hm
    exact Or.inr hname
  · rw [hwf.mappingAt_add_outside hadd hx] at hm
    exact Or.inl hm

/-- A mapping that cannot be made or filled leaves no trace in the table. -/
theorem gains_mapAndFill (h : ProcessMemory mem) (addr length : U32) (prot : U8)
    (data : List U8) : Gains mem (mapAndFill mem addr length prot data id).2 := by
  unfold mapAndFill
  obtain ⟨next, ⟨e, hmap⟩ | ⟨mapped, space, hmap, hadd, _⟩⟩ :=
    mapAnonymous_cases mem.space addr length prot "mmap2"
  · rw [hmap]
    exact .of_mappings h rfl rfl rfl rfl
  rw [hmap]
  dsimp only
  cases hw : { mem with space := space }.writeBytes mapped data with
  | ok mem' => exact .of_add h (by decide) hadd hw
  | error e =>
    have hmax : space.max = { mem.space with nextHint := next }.max := max_add hadd
    dsimp only [id, Memory.discard]
    rw [(h.wellFormed.nextHint next).remove_add hadd]
    exact .of_mappings h rfl hmax rfl rfl

theorem HeapInv.mmap2 (readAt : ReadAt) (h : HeapInv s)
    (addr length linuxProt : U32) {flags : U32} (fd : Int) (pageOffset : U32)
    (anywhere : flags &&& 0x10 = 0) : HeapInv (s.mmap2 readAt addr length linuxProt flags fd pageOffset) := by
  obtain ⟨s', hmem, hkern, ⟨e, -, heq⟩ | ⟨-, -, data, heq⟩⟩ :=
    mmap2_cases readAt s addr length linuxProt flags fd pageOffset
  · rw [heq]
    refine h.gains hkern ?_
    rw [show (s'.ret e).mem = s.mem from hmem]
    exact .of_mappings h.memory rfl rfl rfl rfl
  · have hfixed : decide (flags &&& 0x10 ≠ 0) = false := decide_eq_false (not_not.mpr anywhere)
    rw [heq, hfixed]
    exact h.gains hkern (gains_mapAndFill h.memory _ _ _ data)

/-! ## `brk` -/

section Brk
variable {requested : U32}

theorem toNat_setBreak_end (hpage : s.kern.heapEnd.toNat % 4096 = 0)
    (hreq : requested.toNat ≤ 0xfffff000) :
    (s.setBreak requested).kern.heapEnd.toNat = max (roundUp requested) s.kern.heapEnd.toNat := by
  have hround := toNat_pageAlignUp hreq
  have hle := le_roundUp requested
  unfold KState.setBreak
  dsimp only
  split
  · bv_omega
  · have := roundUp_le (v := requested) (n := s.kern.heapEnd.toNat) (by bv_omega) hpage
    omega

theorem HeapInv.moved (h : HeapInv s) (hlow : s.kern.heapStart.toNat ≤ requested.toNat)
    (hreq : requested.toNat ≤ 0xfffff000) (hmem : ProcessMemory mem)
    (hmapped : ∀ x : U32, s.kern.heapStart.toNat ≤ x.toNat → x.toNat < roundUp requested →
      ∃ m, mem.space.mappingAt x = some m ∧ m.prot = protRead ||| protWrite ∧
        m.endAddr.toNat ≤ roundUp requested)
    (hbare : ∀ x : U32, roundUp requested ≤ x.toNat → x.toNat < s.kern.heapEnd.toNat →
      ∀ m, mem.space.mappingAt x = some m → m.name ≠ "[heap]") :
    HeapInv (({ s with mem := mem }.setBreak requested).ret requested) := by
  have hend : (({ s with mem := mem }.setBreak requested).ret requested).kern.heapEnd.toNat =
      max (roundUp requested) s.kern.heapEnd.toNat := toNat_setBreak_end h.endPage hreq
  have hle := le_roundUp requested
  have hpage := roundUp_page requested
  refine ⟨hmem, h.pos, h.startPage, ?_, hlow, ?_, hmapped, ?_⟩
  · have := h.endPage
    omega
  · show requested.toNat ≤ _
    omega
  · intro x hx₁ hx₂
    have hx₁ : roundUp requested ≤ x.toNat := hx₁
    exact hbare x hx₁ (by omega)

theorem growHeap_cases (h : ProcessMemory mem) (hold : oldPages ≠ 0) (hgrow : oldPages < newPages) :
    (∃ next, growHeap mem oldPages newPages =
        (some enomem, { mem with space := { mem.space with nextHint := next } })) ∨
      ∃ next space mem',
        { mem.space with nextHint := next }.add oldPages (newPages - oldPages)
          (protRead ||| protWrite) "[heap]" = .ok space ∧
        { mem with space := space }.writeBytes oldPages (zeroBytes (newPages - oldPages)) = .ok mem' ∧
        growHeap mem oldPages newPages = (none, mem') := by
  unfold growHeap
  obtain ⟨next, ⟨e, hmap⟩ | ⟨mapped, space, hmap, hadd, haddr⟩⟩ :=
    mapAnonymous_cases mem.space oldPages (newPages - oldPages) (protRead ||| protWrite) "[heap]"
  · rw [hmap]
    exact Or.inl ⟨next, rfl⟩
  obtain rfl := haddr hold
  -- the new pages may be written, so they can be cleared
  obtain ⟨mem', hw⟩ := (h.fill_iff (by bv_omega) hadd).mpr (by decide)
  rw [hmap]
  dsimp only
  rw [hw]
  exact Or.inr ⟨next, space, mem', hadd, hw, rfl⟩

theorem inRange_between (hgrow : oldPages < newPages) :
    InRange oldPages (newPages - oldPages) x ↔
      oldPages.toNat ≤ x.toNat ∧ x.toNat < newPages.toNat := by
  unfold InRange
  bv_omega

/-- A request below the limit that could be mapped does not reach the last page. -/
theorem requested_le_of_fits (h : ProcessMemory mem) (hlimit : requested < fsRootLimit mem.size)
    (hfits : (pageAlignUp requested).toNat ≤ mem.space.max.toNat) : requested.toNat ≤ 0xfffff000 := by
  by_contra hhigh
  rw [pageAlignUp_high (by omega), ← h.size] at hfits
  have hfull : mem.size = 0xffffffff := by bv_omega
  rw [hfull, fsRootLimit] at hlimit
  bv_omega

theorem ProcessMemory.read8_eq (h : ProcessMemory mem) {m : Mapping}
    (hat : mem.space.mappingAt x = some m) (hprot : m.prot &&& protRead = protRead) :
    mem.read8 x = .ok (mem.data x) := by
  obtain ⟨hm, _, hx⟩ := h.wellFormed.mappingAt_iff.mp hat
  have hmax := (h.wellFormed.inside m hm).2
  have hlt : x < mem.space.max := by bv_omega
  have hok : mem.checkAccess x 1 protRead = .ok () :=
    Memory.checkAccess_one.mpr ⟨by rw [h.size]; exact hlt, fun _ => ⟨hlt, m, hat, hprot⟩⟩
  rw [Memory.read8, hok]
  show Except.ok (leValue 8 [mem.data x]) = _
  simp [leValue]

theorem HeapInv.grow (h : HeapInv s) (hlow : s.kern.heapStart.toNat ≤ requested.toNat)
    (hlimit : requested < fsRootLimit s.mem.size)
    (hgrow : pageAlignUp s.kern.brk < pageAlignUp requested)
    (hadd : { s.mem.space with nextHint := next }.add (pageAlignUp s.kern.brk)
      (pageAlignUp requested - pageAlignUp s.kern.brk) (protRead ||| protWrite) "[heap]" = .ok space)
    (hw : { s.mem with space := space }.writeBytes (pageAlignUp s.kern.brk)
      (zeroBytes (pageAlignUp requested - pageAlignUp s.kern.brk)) = .ok mem) :
    HeapInv (({ s with mem := mem }.setBreak requested).ret requested) ∧
      ∀ x, pageAlignUp s.kern.brk ≤ x → x < pageAlignUp requested → mem.read8 x = .ok 0 := by
  have hspace : mem.space = space := (Memory.writeBytes_shape hw).2.1
  have hwf := h.memory.wellFormed.nextHint next
  have hmem := (h.memory.add hadd).writeBytes hw
  have hfits : (pageAlignUp requested).toNat ≤ s.mem.space.max.toNat := by
    have : _ ≤ s.mem.space.max.toNat := (freeAt_of_add hadd).1
    bv_omega
  have hreq := requested_le_of_fits h.memory hlimit hfits
  have hbrk := h.pageAlignUp_brk
  have hround := toNat_pageAlignUp hreq
  refine ⟨h.moved hlow hreq hmem ?_ ?_, ?_⟩
  · intro x hx₁ hx₂
    rw [hspace]
    by_cases hx : InRange (pageAlignUp s.kern.brk) (pageAlignUp requested - pageAlignUp s.kern.brk) x
    · refine ⟨_, hwf.mappingAt_add_inside hadd hx, rfl, ?_⟩
      show (pageAlignUp s.kern.brk + (pageAlignUp requested - pageAlignUp s.kern.brk)).toNat ≤ _
      rw [show pageAlignUp s.kern.brk + (pageAlignUp requested - pageAlignUp s.kern.brk) =
        pageAlignUp requested by bv_omega, hround]
    have hold : x.toNat < roundUp s.kern.brk := by
      rw [inRange_between hgrow] at hx
      omega
    obtain ⟨m, hat, hm, hle⟩ := h.mapped x hx₁ hold
    exact ⟨m, (hwf.mappingAt_add_outside hadd hx).trans hat, hm, by bv_omega⟩
  · intro x hx₁ hx₂ m hat
    have hx : ¬ InRange (pageAlignUp s.kern.brk) (pageAlignUp requested - pageAlignUp s.kern.brk) x := by
      rw [inRange_between hgrow]
      omega
    rw [hspace, hwf.mappingAt_add_outside hadd hx] at hat
    exact h.bare x (by bv_omega) hx₂ m hat
  · intro x hx₁ hx₂
    have hx := (inRange_between hgrow).mpr ⟨hx₁, hx₂⟩
    have hfresh := freshlyMapped_of_fill h.memory.wellFormed hadd hw
    obtain ⟨m, hat, hprot⟩ := hfresh.mapped x hx
    rw [hmem.read8_eq hat (by rw [hprot]; decide), hfresh.zero x hx]

/-- A request that does not grow the heap does not reach the last page either. -/
theorem HeapInv.requested_le (h : HeapInv s) (hle : pageAlignUp requested ≤ pageAlignUp s.kern.brk) :
    requested.toNat ≤ 0xfffff000 := by
  have hbrk := h.pageAlignUp_brk
  have hend := h.roundUp_le_end.trans h.end_le
  by_contra hhigh
  have := pageAlignUp_high (v := requested) (by omega)
  bv_omega

theorem HeapInv.accepts_shrink (h : HeapInv s)
    (hlow : s.kern.heapStart.toNat ≤ newPages.toNat) (hshrink : newPages < pageAlignUp s.kern.brk) :
    ¬ s.mem.space.rejects newPages (pageAlignUp s.kern.brk - newPages) := by
  have hbrk := h.pageAlignUp_brk
  -- the last byte below the break is in a mapping, which ends inside the space
  obtain ⟨m, hat, _⟩ := h.mapped (pageAlignUp s.kern.brk - 1) (by bv_omega) (by bv_omega)
  obtain ⟨hm, _, hx⟩ := h.memory.wellFormed.mappingAt_iff.mp hat
  have := (h.memory.wellFormed.inside m hm).2
  unfold rejects
  bv_omega

theorem HeapInv.not_splitsInner (h : HeapInv s)
    (hlow : s.kern.heapStart.toNat ≤ newPages.toNat) (hshrink : newPages < pageAlignUp s.kern.brk) :
    ¬ s.mem.space.SplitsInner newPages (pageAlignUp s.kern.brk - newPages) := by
  have hbrk := h.pageAlignUp_brk
  rintro ⟨m, hm, hleft, hright⟩
  have hcov : m.Covers newPages := ⟨by bv_omega, by bv_omega⟩
  have hat := h.memory.wellFormed.mappingAt_iff.mpr ⟨List.dropLast_subset _ hm, hcov⟩
  obtain ⟨m', hat', _, hend⟩ := h.mapped newPages hlow (by bv_omega)
  rw [hat] at hat'
  cases hat'
  bv_omega

/-- A shrink cuts off the ends of mappings only. -/
theorem HeapInv.shrink (h : HeapInv s) (hlow : s.kern.heapStart.toNat ≤ requested.toNat)
    (hshrink : pageAlignUp requested < pageAlignUp s.kern.brk)
    (hmem : mem = Memory.discard s.mem (pageAlignUp requested)
      (pageAlignUp s.kern.brk - pageAlignUp requested)) :
    HeapInv (({ s with mem := mem }.setBreak requested).ret requested) := by
  have hbrk := h.pageAlignUp_brk
  have hreq := h.requested_le (BitVec.le_of_lt hshrink)
  have hround := toNat_pageAlignUp hreq
  have hpage : s.kern.heapStart.toNat ≤ (pageAlignUp requested).toNat := by
    have := le_roundUp requested
    omega
  obtain ⟨space, hrem, hwf, hmax, hexact⟩ :=
    h.memory.wellFormed.remove_exact (h.accepts_shrink hpage hshrink)
      (h.not_splitsInner hpage hshrink)
  obtain rfl : mem = { s.mem with space := space } := by
    rw [hmem, Memory.discard, hrem]
    rfl
  have hrange := fun x => @inRange_between (pageAlignUp s.kern.brk) (pageAlignUp requested) x hshrink
  have hkept : ∀ x, ¬ InRange (pageAlignUp requested) (pageAlignUp s.kern.brk - pageAlignUp requested) x →
      space.seen x = s.mem.space.seen x := hexact.kept
  refine h.moved hlow hreq ⟨hwf, h.memory.isProtected, h.memory.size.trans hmax.symm⟩ ?_ ?_
  · intro x hx₁ hx₂
    obtain ⟨m, hat, hprot, _⟩ := h.mapped x hx₁ (by bv_omega)
    have hseen := hkept x (by rw [hrange]; omega)
    rw [seen, seen, hat] at hseen
    obtain ⟨m', hat', hsame⟩ := Option.map_eq_some_iff.mp hseen
    refine ⟨m', hat', (congrArg Prod.fst hsame).trans hprot, ?_⟩
    -- a piece that reached beyond the break would cover an address that has been unmapped
    by_contra hbeyond
    obtain ⟨hm', hcov, _⟩ := hwf.mappingAt_iff.mp hat'
    have hgone := hexact.gone (pageAlignUp requested) ((hrange _).mpr ⟨le_rfl, hshrink⟩)
    have hat'' := hwf.mappingAt_iff.mpr
      (show m' ∈ space.mappings ∧ m'.Covers (pageAlignUp requested) from
        ⟨hm', by bv_omega, by bv_omega⟩)
    rw [hgone] at hat''
    cases hat''
  · intro x hx₁ hx₂ m hat
    by_cases hx : InRange (pageAlignUp requested) (pageAlignUp s.kern.brk - pageAlignUp requested) x
    · rw [hexact.gone x hx] at hat
      cases hat
    have hseen := hkept x hx
    rw [seen, seen, hat] at hseen
    obtain ⟨m', hat', hsame⟩ := Option.map_eq_some_iff.mp hseen.symm
    have hname : m'.name = m.name := congrArg Prod.snd hsame
    rw [← hname]
    rw [hrange] at hx
    exact h.bare x (by omega) hx₂ m' hat'

theorem HeapInv.stay (h : HeapInv s) (hlow : s.kern.heapStart.toNat ≤ requested.toNat)
    (hsame : pageAlignUp requested = pageAlignUp s.kern.brk) :
    HeapInv (({ s with mem := s.mem }.setBreak requested).ret requested) := by
  have hbrk := h.pageAlignUp_brk
  have hreq := h.requested_le (BitVec.le_of_eq hsame)
  have hround : roundUp requested = roundUp s.kern.brk := by
    rw [← toNat_pageAlignUp hreq, hsame, hbrk]
  refine h.moved hlow hreq h.memory ?_ ?_
  · rw [hround]
    exact h.mapped
  · rw [hround]
    exact h.bare

theorem HeapInv.unmoved (h : HeapInv s) (requested : U32) (hkern : s'.kern = s.kern)
    (hmappings : s'.mem.space.mappings = s.mem.space.mappings)
    (hmax : s'.mem.space.max = s.mem.space.max) (hdata : s'.mem.data = s.mem.data)
    (hprot : s'.mem.isProtected = s.mem.isProtected) (hsize : s'.mem.size = s.mem.size) :
    HeapInv s' ∧ BrkExact s s' requested := by
  refine ⟨h.gains hkern (.of_mappings h.memory hmappings hmax hprot hsize),
    fun _ => ⟨hkern, hmappings, hdata⟩, ?_⟩
  intro x hx₁ hx₂
  rw [hkern] at hx₂
  exact absurd hx₂ (BitVec.not_lt.mpr hx₁)

theorem BrkExact.granted
    (hzero : ∀ x, pageAlignUp s.kern.brk ≤ x → x < pageAlignUp requested → mem.read8 x = .ok 0) :
    BrkExact s (({ s with mem := mem }.setBreak requested).ret requested) requested :=
  ⟨fun hne => absurd rfl hne, hzero⟩

theorem HeapInv.brk (h : HeapInv s) (requested : U32) :
    HeapInv (s.brk requested) ∧ BrkExact s (s.brk requested) requested := by
  unfold KState.brk
  split
  · exact h.unmoved requested rfl rfl rfl rfl rfl rfl
  split
  · exact h.unmoved requested rfl rfl rfl rfl rfl rfl
  have hlow : s.kern.heapStart.toNat ≤ requested.toNat := by
    bv_omega
  split
  · exact h.unmoved requested rfl rfl rfl rfl rfl rfl
  rename_i hlimit
  have hlimit := BitVec.not_le.mp hlimit
  have hbrk := h.pageAlignUp_brk
  unfold moveHeap
  split
  · rename_i hgrow
    have hold : pageAlignUp s.kern.brk ≠ 0 := by
      have := h.pos
      have := h.low
      have := le_roundUp s.kern.brk
      bv_omega
    rcases growHeap_cases h.memory hold hgrow with
      ⟨next, heq⟩ | ⟨next, space, mem, hadd, hw, heq⟩
    · rw [heq]
      exact h.unmoved requested rfl rfl rfl rfl rfl rfl
    · obtain ⟨hinv, hzero⟩ := h.grow hlow hlimit hgrow hadd hw
      rw [heq]
      exact ⟨hinv, .granted hzero⟩
  · rename_i hgrow
    have hvacuous : ∀ (mem : Memory) x, pageAlignUp s.kern.brk ≤ x →
        x < pageAlignUp requested → mem.read8 x = .ok 0 := by
      intro mem x hx₁ hx₂
      bv_omega
    split
    · rename_i hshrink
      exact ⟨h.shrink hlow hshrink.1 rfl, .granted (hvacuous _)⟩
    · have hend := h.roundUp_le_end
      exact ⟨h.stay hlow (by bv_omega), .granted (hvacuous _)⟩

end Brk

/-! ## Every run -/

theorem HeapInv.run (readAt : ReadAt) (h : HeapInv s) (c : BreakCall) : HeapInv (c.run readAt s) := by
  cases c with
  | brk requested => exact (h.brk requested).1
  | mmap2 addr length linuxProt flags fd pageOffset anywhere =>
    exact h.mmap2 readAt addr length linuxProt fd pageOffset anywhere
  | guest cpu data => exact h.gains rfl (.of_mappings h.memory rfl rfl rfl rfl)

theorem HeapInv.runAll (readAt : ReadAt) : ∀ (cs : List BreakCall) {s : KState}, HeapInv s →
    HeapInv (BreakCall.runAll readAt s cs)
  | [], _, h => h
  | c :: cs, _, h => HeapInv.runAll readAt cs (h.run readAt c)

/-- From a loaded image on, after any calls of `brk` and `mmap2` with any arguments, the break is
where it should be, and the next call of `brk` does what it should. -/
theorem break_holds (readAt : ReadAt) (s : KState) (hmem : ProcessMemory s.mem)
    (hend : s.kern.heapEnd = s.kern.heapStart) (hbrk : s.kern.brk = s.kern.heapStart)
    (hpos : s.kern.heapStart ≠ 0) (hpage : s.kern.heapStart &&& 0xfff = 0) (cs : List BreakCall) :
    (BreakCall.runAll readAt s cs).BreakHolds ∧
      ∀ requested, BrkExact (BreakCall.runAll readAt s cs)
        ((BreakCall.runAll readAt s cs).brk requested) requested := by
  have h := HeapInv.runAll readAt cs (HeapInv.initial hmem hend hbrk hpos hpage)
  exact ⟨h.holds, fun requested => (h.brk requested).2⟩

/-- A loaded image: one region, and the heap behind it. -/
def loadedImage : KState :=
  let s := KState.new true none CPU.new
    { size := 0x40000, data := fun x => x.setWidth 8
      space := { mappings := [⟨0x1000, 0x4000, 5, "text"⟩], max := 0x40000, nextHint := 0x01000000 }
      isProtected := true }
    Objects.new
  { s with kern := { s.kern with brk := 0x4000, heapStart := 0x4000, heapEnd := 0x4000 } }

def growAgain : List BreakCall :=
  [.brk 0x6800, .guest CPU.new (fun _ => 7), .brk 0x4100, .mmap2 0x9000 0x1000 3 0x22 (-1) 0 rfl,
    .brk 0x8000]

theorem break_holds_growAgain :
    let s := BreakCall.runAll (fun _ _ _ _ => ([], none)) loadedImage growAgain
    s.kern.brk = 0x8000 ∧ s.BreakHolds ∧
      ∀ requested, BrkExact s (s.brk requested) requested :=
  have hmem : ProcessMemory loadedImage.mem :=
    ⟨wellFormed_iff.mpr ⟨⟨by decide, by decide⟩, by decide⟩, rfl, rfl⟩
  ⟨by decide +kernel, break_holds _ loadedImage hmem rfl rfl (by decide) (by decide) growAgain⟩

end IshGo.Kernel
