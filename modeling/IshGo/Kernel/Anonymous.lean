/-
# `IshGo.Kernel.Anonymous` — when an anonymous `mmap2` works

For the memory of a process (well-formed table, protection on), a length of at most 64 MiB
and any permissions, `mmap2_anonymous_iff` says exactly when the call does what it should.
-/
import IshGo.Kernel.MapAtomic

namespace IshGo.Kernel

open I386 I386.AddressSpace Memory

variable {a : AddressSpace} {mem' : Memory} {addr : U32} {r : U32 × Memory}
variable {bytes : List U8} {name : String} {restore : Memory → Memory} {size start : U32}
variable {length : U32} {mem : Memory} {prot : U8} {space : AddressSpace}

structure ProcessMemory (mem : Memory) : Prop where
  wellFormed : mem.space.WellFormed
  isProtected : mem.isProtected = true
  size : mem.size = mem.space.max

/-- The range is newly mapped, with these permissions, and nothing else has changed. -/
structure FreshlyMapped (mem mem' : Memory) (start size : U32) (prot : U8) : Prop where
  fits : start.toNat + size.toNat ≤ mem.space.max.toNat
  mapped : ∀ x, InRange start size x → ∃ m, mem'.space.mappingAt x = some m ∧ m.prot = prot
  zero : ∀ x, InRange start size x → mem'.data x = 0
  tableKept : ∀ x, ¬ InRange start size x → mem'.space.seen x = mem.space.seen x
  bytesKept : ∀ x, ¬ InRange start size x → mem'.data x = mem.data x

/-! ## Zeros in a new mapping -/

theorem length_zeroBytes (n : U32) : (zeroBytes n).length = n.toNat := List.length_replicate

theorem storeBytes_zeroBytes (data : U32 → U8)
    (hfits : start.toNat + size.toNat < 2 ^ 32) (x : U32) :
    storeBytes data start (zeroBytes size) x = if InRange start size x then 0 else data x := by
  have hlen := length_zeroBytes size
  split
  · rename_i hx
    obtain ⟨h₁, h₂⟩ := hx
    have hi : (x - start).toNat < size.toNat := by bv_omega
    refine Option.some.inj ?_
    rw [storeBytes_inside (by omega) rfl (by omega), zeroBytes, List.getElem?_replicate, if_pos hi]
  rename_i hx
  have hi : (zeroBytes size).length ≤ (x - start).toNat := by
    unfold InRange at hx
    bv_omega
  exact storeBytes_beyond (by omega) hi

theorem ProcessMemory.checkAccess_iff (h : ProcessMemory mem)
    (hfits : start.toNat + size.toNat ≤ mem.space.max.toNat) (hsize : size ≠ 0) (prot : U8) :
    mem.checkAccess start size prot = .ok () ↔
      ∀ x, InRange start size x → mem.space.Passes prot x := by
  constructor
  · intro hok x hx
    obtain ⟨h₁, h₂⟩ := hx
    have hallows := checkAccess_ok hok h.isProtected
      (show x.toNat - start.toNat < size.toNat by omega)
    rw [show start + BitVec.ofNat 32 (x.toNat - start.toNat) = x by bv_omega] at hallows
    exact h.wellFormed.passes_iff.mpr hallows
  intro hpass
  refine checkAccess_of_bytes hsize (by omega) ?_
  intro i hi
  have hx : InRange start size (start + BitVec.ofNat 32 i) := by
    unfold InRange
    bv_omega
  refine checkAccess_one.mpr ⟨?_, ?_⟩
  · rw [h.size]
    bv_omega
  · intro _
    exact ⟨by bv_omega, hpass _ hx⟩

section New
variable {next mapped : U32}

theorem ProcessMemory.add (h : ProcessMemory mem)
    (hadd : { mem.space with nextHint := next }.add mapped size prot name = .ok space) :
    ProcessMemory { mem with space := space } := by
  refine ⟨(h.wellFormed.nextHint next).add hadd, h.isProtected, ?_⟩
  rw [max_add hadd]
  exact h.size

theorem ProcessMemory.writeBytes (h : ProcessMemory mem)
    (hw : mem.writeBytes addr bytes = .ok mem') : ProcessMemory mem' := by
  obtain ⟨hsize, hspace, hprot⟩ := writeBytes_shape hw
  refine ⟨?_, hprot.trans h.isProtected, ?_⟩
  · rw [hspace]
    exact h.wellFormed
  · rw [hsize, hspace]
    exact h.size

/-- A new mapping can be filled exactly if it may be written. -/
theorem ProcessMemory.fill_iff (h : ProcessMemory mem) (hsize : size ≠ 0)
    (hadd : { mem.space with nextHint := next }.add mapped size prot name = .ok space) :
    (∃ mem', { mem with space := space }.writeBytes mapped (zeroBytes size) = .ok mem') ↔
      prot &&& protWrite = protWrite := by
  have hwf := h.wellFormed.nextHint next
  have hfits : mapped.toNat + size.toNat ≤ space.max.toNat := by
    rw [max_add hadd]
    exact (freeAt_of_add hadd).1
  have hcheck := (h.add hadd).checkAccess_iff hfits hsize protWrite
  have hlen : BitVec.ofNat 32 (zeroBytes size).length = size := by
    rw [length_zeroBytes, BitVec.ofNat_toNat, BitVec.setWidth_eq]
  constructor
  · rintro ⟨mem', hw⟩
    have hok := writeBytes_checked hw
    rw [hlen] at hok
    have hx : InRange mapped size mapped := by
      unfold InRange
      bv_omega
    obtain ⟨m, hat, hprot⟩ := hcheck.mp hok mapped hx
    rw [hwf.mappingAt_add_inside hadd hx] at hat
    cases hat
    exact hprot
  · intro hprot
    refine ⟨_, writeBytes_eq ?_ (by rw [length_zeroBytes]; exact size.isLt)⟩
    rw [hlen]
    refine hcheck.mpr ?_
    intro x hx
    exact ⟨_, hwf.mappingAt_add_inside hadd hx, hprot⟩

theorem freshlyMapped_of_fill (h : mem.space.WellFormed)
    (hadd : { mem.space with nextHint := next }.add mapped size prot name = .ok space)
    (hw : { mem with space := space }.writeBytes mapped (zeroBytes size) = .ok mem') :
    FreshlyMapped mem mem' mapped size prot := by
  have hwf := h.nextHint next
  have hlen : (zeroBytes size).length < 2 ^ 32 := by
    rw [length_zeroBytes]
    exact size.isLt
  obtain rfl := writeBytes_result hw hlen
  have hbytes := storeBytes_zeroBytes mem.data (add_fits hadd)
  refine ⟨(freeAt_of_add hadd).1, ?_, ?_, ?_, ?_⟩
  · intro x hx
    exact ⟨_, hwf.mappingAt_add_inside hadd hx, rfl⟩
  · intro x hx
    exact (hbytes x).trans (if_pos hx)
  · intro x hx
    show (space.mappingAt x).map _ = _
    rw [hwf.mappingAt_add_outside hadd hx]
    rfl
  · intro x hx
    exact (hbytes x).trans (if_neg hx)

end New

theorem ProcessMemory.mapAndFill_iff (h : ProcessMemory mem) (addr : U32)
    (hlen : 4096 ≤ length.toNat) (prot : U8) (restore : Memory → Memory) :
    ¬ IsErrno (mapAndFill mem addr length prot (zeroBytes length) restore).1 ↔
      (∃ mapped space, mem.space.mapAnonymous addr length prot "mmap2" = (.ok mapped, space)) ∧
        prot &&& protWrite = protWrite := by
  have hne : length ≠ 0 := by bv_omega
  unfold mapAndFill
  obtain ⟨next, ⟨e, hmap⟩ | ⟨mapped, space, hmap, hadd, _⟩⟩ :=
    mapAnonymous_cases mem.space addr length prot "mmap2"
  · rw [hmap]
    refine iff_of_false (not_not.mpr isErrno_enomem) ?_
    rintro ⟨⟨mapped, space, hok⟩, _⟩
    cases hok
  rw [hmap]
  have hfill := h.fill_iff hne hadd
  dsimp only
  cases hw : { mem with space := space }.writeBytes mapped (zeroBytes length) with
  | ok mem' =>
    refine iff_of_true (not_isErrno_of_add hlen hadd) ⟨⟨mapped, space, rfl⟩, ?_⟩
    exact hfill.mp ⟨mem', hw⟩
  | error e =>
    refine iff_of_false (not_not.mpr isErrno_efault) ?_
    rintro ⟨_, hprot⟩
    obtain ⟨mem', hok⟩ := hfill.mpr hprot
    rw [hw] at hok
    cases hok

theorem mapAndFill_fresh (h : mem.space.WellFormed)
    (hr : mapAndFill mem addr length prot (zeroBytes length) restore = r) (hok : ¬ IsErrno r.1) :
    FreshlyMapped mem r.2 r.1 length prot ∧ (addr ≠ 0 → r.1 = addr) := by
  rcases mapAndFill_cases mem addr length prot (zeroBytes length) restore with
    ⟨next, mapped, space, mem', hadd, hw, haddr, heq⟩ | ⟨e, mem', herr, heq, _⟩
  · rw [← hr, heq]
    exact ⟨freshlyMapped_of_fill h hadd hw, haddr⟩
  · rw [← hr, heq] at hok
    exact absurd herr hok

/-! ## Without `MAP_FIXED` -/

theorem prot_and_protWrite (linuxProt : U32) :
    Kernel.prot linuxProt &&& protWrite = protWrite ↔ linuxProt &&& 2 ≠ 0 := by
  unfold Kernel.prot
  by_cases h₂ : linuxProt &&& 2 ≠ 0
  · refine iff_of_true ?_ h₂
    split <;> split <;> decide
  · refine iff_of_false ?_ h₂
    split <;> split <;> decide

/-- Where a mapping is tried: nowhere in particular, or at a free page. -/
theorem mapHint_cases (a : AddressSpace) (addr length : U32) :
    mapHint a addr length = 0 ∨
      mapHint a addr length = addr ∧ 0x1000 ≤ addr ∧ a.FreeAt addr length := by
  unfold mapHint
  split
  · exact Or.inl rfl
  rename_i hok
  simp only [not_or, Bool.not_eq_false] at hok
  obtain ⟨hlow, hmax, hroom, _, hfree⟩ := hok
  exact Or.inr ⟨rfl, BitVec.not_lt.mp hlow, freeAt_of_isFree (by bv_omega) hfree⟩

theorem mapHint_complete (h : a.WellFormed) {x : U32} (hfree : a.FreeAt x length)
    (hlen : length ≠ 0) (hlow : 0x1000 ≤ x ∨ x = 0 ∧ a.nextHint < 0x1000) (addr : U32) (prot : U8)
    (name : String) :
    ∃ mapped a', a.mapAnonymous (mapHint a addr length) length prot name = (.ok mapped, a') := by
  rcases mapHint_cases a addr length with hzero | ⟨haddr, hpage, hfree'⟩
  · rw [hzero]
    exact h.mapAnonymous_complete hfree hlen hlow prot name
  · rw [haddr]
    obtain ⟨a', hmap⟩ := hfree'.mapAnonymous (by bv_omega) hlen prot name
    exact ⟨addr, a', hmap⟩

def HoleExists (a : AddressSpace) (length : U32) : Prop := ∃ x, x &&& 0xfff = 0 ∧ a.FreeAt x length

def HoleInReach (a : AddressSpace) (length : U32) : Prop :=
  (∃ x, 0x1000 ≤ x ∧ a.FreeAt x length) ∨ a.nextHint < 0x1000

theorem HoleInReach.place (h : HoleInReach a length) (hole : HoleExists a length) :
    ∃ x, a.FreeAt x length ∧ (0x1000 ≤ x ∨ x = 0 ∧ a.nextHint < 0x1000) := by
  rcases h with ⟨x, hlow, hfree⟩ | hnext
  · exact ⟨x, hfree, Or.inl hlow⟩
  obtain ⟨x, hpage, hfree⟩ := hole
  have hpage := and_page_eq_zero.mp hpage
  refine ⟨x, hfree, ?_⟩
  by_cases hx : x = 0
  · exact Or.inr ⟨hx, hnext⟩
  · exact Or.inl (by bv_omega)

/-- A mapping has been made: the place it was made at was within reach. -/
theorem holeInReach_of_mapAnonymous {a' : AddressSpace} {mapped : U32}
    (hmap : a.mapAnonymous (mapHint a addr length) length prot name = (.ok mapped, a')) :
    HoleInReach a length := by
  rcases mapHint_cases a addr length with hzero | ⟨_, hpage, hfree⟩
  · rw [hzero] at hmap
    obtain ⟨next, hadd, _⟩ := mapAnonymous_ok hmap
    rcases mapAnonymous_low hmap with hlow | hnext
    · have hfree : { a with nextHint := next }.FreeAt mapped length := freeAt_of_add hadd
      exact Or.inl ⟨mapped, hlow, hfree⟩
    · exact Or.inr hnext
  · exact Or.inl ⟨addr, hpage, hfree⟩

theorem ProcessMemory.mapAnywhere_iff (h : ProcessMemory mem) (addr : U32)
    (hlen : 4096 ≤ length.toNat) (prot : U8)
    (hr : mapMemory mem false addr length prot (zeroBytes length) = r) :
    ((HoleExists mem.space length → ¬ IsErrno r.1) ∧
        (¬ IsErrno r.1 → FreshlyMapped mem r.2 r.1 length prot)) ↔
      (HoleExists mem.space length →
        prot &&& protWrite = protWrite ∧ HoleInReach mem.space length) := by
  have hr' : mapAndFill mem (mapHint mem.space addr length) length prot (zeroBytes length) id = r := hr
  have hiff := h.mapAndFill_iff (mapHint mem.space addr length) hlen prot id
  rw [hr'] at hiff
  constructor
  · rintro ⟨hsucc, _⟩ hole
    obtain ⟨⟨mapped, space, hmap⟩, hprot⟩ := hiff.mp (hsucc hole)
    exact ⟨hprot, holeInReach_of_mapAnonymous hmap⟩
  intro hcond
  refine ⟨?_, ?_⟩
  · intro hole
    obtain ⟨hprot, hreach⟩ := hcond hole
    obtain ⟨x, hfree, hlow⟩ := hreach.place hole
    have hne : length ≠ 0 := by bv_omega
    exact hiff.mpr ⟨mapHint_complete h.wellFormed hfree hne hlow addr prot "mmap2", hprot⟩
  · intro hok
    exact (mapAndFill_fresh h.wellFormed hr' hok).1

/-! ## With `MAP_FIXED` -/

/-- What gives way could be read, and `Remove` works. -/
structure Replaceable (mem : Memory) (addr length : U32) : Prop where
  fits : addr.toNat + length.toNat ≤ mem.space.max.toNat
  readable : ∀ x, InRange addr length x → mem.space.Passes protRead x
  split : ¬ mem.space.SplitsInner addr length

theorem ProcessMemory.readBytes_iff (h : ProcessMemory mem)
    (hfits : addr.toNat + length.toNat ≤ mem.space.max.toNat) (hlen : length ≠ 0) :
    (∃ bytes, mem.readBytes addr length = .ok bytes) ↔
      ∀ x, InRange addr length x → mem.space.Passes protRead x := by
  rw [← h.checkAccess_iff hfits hlen]
  constructor
  · rintro ⟨bytes, hr⟩
    exact (readWith_ok hr).1
  intro hok
  refine ⟨loadBytes mem.data addr length.toNat, ?_⟩
  rw [Memory.readBytes, hok]
  rfl

/-- A range in the middle of an inner mapping: something behind it is lost, and the new
mapping does not bring it back. -/
theorem not_freshlyMapped_of_splitsInner (h : mem.space.WellFormed)
    {next : U32} (hacc : ¬ mem.space.rejects addr length)
    (hsplit : mem.space.SplitsInner addr length) {space' : AddressSpace}
    (hrem : mem.space.remove addr length = .ok space)
    (hadd : { space with nextHint := next }.add addr length prot name = .ok space')
    (hspace : mem'.space = space') : ¬ FreshlyMapped mem mem' addr length prot := by
  intro hgood
  obtain ⟨k, hk, hbehind, hlost⟩ := h.lost_of_splitsInner hacc hsplit hrem
  have hout := not_inRange_of_le hbehind
  have hseen := hgood.tableKept k.start hout
  have hnone : space'.mappingAt k.start = none := by
    refine mappingAt_eq_none ?_
    intro n hn hcov
    rcases (mem_add hadd).mp hn with hn | rfl
    · exact hlost n hn hcov
    · exact hout ((covers_new (add_ok hadd).1).mp hcov)
  rw [seen, seen, hspace, hnone, h.mappingAt_start hk] at hseen
  cases hseen

theorem FreshlyMapped.of_remove
    (h : FreshlyMapped { mem with space := space } mem' addr length prot)
    (hmax : space.max = mem.space.max) (hrem : UnmapsExactly mem.space space addr length) :
    FreshlyMapped mem mem' addr length prot := by
  refine ⟨?_, h.mapped, h.zero, ?_, h.bytesKept⟩
  · rw [← hmax]
    exact h.fits
  · intro x hx
    exact (h.tableKept x hx).trans (hrem.kept x hx)

/-- A range that is not inside the space, or cannot be read, is refused. -/
theorem mapFixed_refused (prot : U8) (data : List U8)
    (h : ¬ (addr.toNat + length.toNat ≤ mem.space.max.toNat ∧ ∃ bytes, mem.readBytes addr length = .ok bytes)) :
    IsErrno (mapFixed mem addr length prot data).1 := by
  unfold mapFixed
  split
  · exact isErrno_enomem
  · cases hread : mem.readBytes addr length with
    | error e => exact isErrno_efault
    | ok bytes => exact absurd ⟨by bv_omega, bytes, hread⟩ h

theorem mapFixed_eq (hpage : addr &&& 0xfff = 0)
    (hfits : addr.toNat + length.toNat ≤ mem.space.max.toNat) (hlen : length ≠ 0)
    (hread : mem.readBytes addr length = .ok bytes) (prot : U8) (data : List U8) :
    ∃ space restore, mem.space.remove addr length = .ok space ∧
      mapFixed mem addr length prot data =
        mapAndFill { mem with space := space } addr length prot data restore := by
  have hacc : ¬ mem.space.rejects addr length := by
    unfold rejects
    bv_omega
  have hrem : mem.space.remove addr length =
      .ok { mem.space with
        mappings := IshGo.Lib.inPlace (unmapPieces addr (addr + length)) mem.space.mappings [] } := by
    rw [remove, if_neg hacc]
  refine ⟨_, restoreFixed mem.space.mappings addr bytes, hrem, ?_⟩
  rw [mapFixed, if_neg (by rw [hpage]; bv_omega), hread]
  rw [hrem]

/-- A range in the middle of an inner mapping is never replaced as it should be. -/
theorem not_freshlyMapped_mapAndFill (h : mem.space.WellFormed)
    (haddr : addr ≠ 0) (hlen : length ≠ 0) (hfits : addr.toNat + length.toNat ≤ mem.space.max.toNat)
    (hsplit : mem.space.SplitsInner addr length)
    (hrem : mem.space.remove addr length = .ok space)
    (hr : mapAndFill { mem with space := space } addr length prot (zeroBytes length) restore = r)
    (hok : ¬ IsErrno r.1) : ¬ FreshlyMapped mem r.2 addr length prot := by
  have hacc : ¬ mem.space.rejects addr length := by
    unfold rejects
    bv_omega
  rcases mapAndFill_cases { mem with space := space } addr length prot (zeroBytes length) restore with
    ⟨next, mapped, space', mem', hadd, hw, hsame, heq⟩ | ⟨e, mem', herr, heq, _⟩
  · have hspace : mem'.space = space' := (writeBytes_shape hw).2.1
    rw [hsame haddr] at hadd
    rw [← hr, heq]
    exact not_freshlyMapped_of_splitsInner h hacc hsplit hrem hadd hspace
  · rw [← hr, heq] at hok
    exact absurd herr hok

theorem ProcessMemory.mapFixed_iff (h : ProcessMemory mem)
    (haddr : addr ≠ 0) (hpage : addr &&& 0xfff = 0) (hlen : 4096 ≤ length.toNat) (prot : U8)
    (hr : mapMemory mem true addr length prot (zeroBytes length) = r) :
    (¬ IsErrno r.1 ∧ r.1 = addr ∧ FreshlyMapped mem r.2 addr length prot) ↔
      prot &&& protWrite = protWrite ∧ Replaceable mem addr length := by
  have hne : length ≠ 0 := by bv_omega
  have hr : mapFixed mem addr length prot (zeroBytes length) = r := hr
  by_cases hgo : addr.toNat + length.toNat ≤ mem.space.max.toNat ∧
      ∃ bytes, mem.readBytes addr length = .ok bytes
  · obtain ⟨hfits, bytes, hread⟩ := hgo
    have hacc : ¬ mem.space.rejects addr length := by
      unfold rejects
      bv_omega
    have hreadable := (h.readBytes_iff hfits hne).mp ⟨bytes, hread⟩
    obtain ⟨space, restore, hrem, heq⟩ := mapFixed_eq hpage hfits hne hread prot (zeroBytes length)
    rw [heq] at hr
    by_cases hsplit : mem.space.SplitsInner addr length
    · refine iff_of_false ?_ ?_
      · rintro ⟨hok, _, hfresh⟩
        exact not_freshlyMapped_mapAndFill h.wellFormed haddr hne hfits hsplit hrem hr hok hfresh
      · rintro ⟨_, hrep⟩
        exact hrep.split hsplit
    obtain ⟨space', hrem', hwf, hmax, hexact⟩ := h.wellFormed.remove_exact hacc hsplit
    rw [hrem] at hrem'
    cases hrem'
    have hproc : ProcessMemory { mem with space := space } :=
      ⟨hwf, h.isProtected, h.size.trans hmax.symm⟩
    have hiff := hproc.mapAndFill_iff addr hlen prot restore
    rw [hr] at hiff
    constructor
    · rintro ⟨hok, _⟩
      exact ⟨(hiff.mp hok).2, hfits, hreadable, hsplit⟩
    rintro ⟨hprot, _⟩
    have hfree := hwf.freeAt_of_gone (by rw [hmax]; exact hfits) hne hexact.gone
    obtain ⟨space', hmap⟩ := hfree.mapAnonymous haddr hne prot "mmap2"
    have hok := hiff.mpr ⟨⟨addr, space', hmap⟩, hprot⟩
    obtain ⟨hfresh, hsame⟩ := mapAndFill_fresh hwf hr hok
    rw [hsame haddr] at hfresh
    exact ⟨hok, hsame haddr, hfresh.of_remove hmax hexact⟩
  · refine iff_of_false ?_ ?_
    · rintro ⟨hok, _⟩
      rw [← hr] at hok
      exact hok (mapFixed_refused prot (zeroBytes length) hgo)
    · rintro ⟨_, hrep⟩
      exact hgo ⟨hrep.fits, (h.readBytes_iff hrep.fits hne).mpr hrep.readable⟩

/-! ## The call -/

theorem mmap2_anonymous (readAt : ReadAt) (s : KState) (addr : U32)
    (hlen : length ≠ 0) (hmax : ¬ length > 64 <<< 20) (linuxProt : U32) {flags : U32}
    (hanon : flags &&& 0x20 ≠ 0) (fd : Int) (pageOffset : U32) :
    s.mmap2 readAt addr length linuxProt flags fd pageOffset =
      s.withMemory (mapMemory s.mem (flags &&& 0x10 ≠ 0) addr (pageAlignUp length)
        (Kernel.prot linuxProt) (zeroBytes (pageAlignUp length))) := by
  obtain ⟨_, _, hpage, _⟩ := pageAlignUp_spec hlen hmax
  rw [KState.mmap2, if_neg (not_or.mpr ⟨hlen, hmax⟩)]
  rw [if_neg (by bv_omega), if_pos hanon]

/-- An anonymous `mmap2` does what it should exactly under these conditions. -/
theorem mmap2_anonymous_iff (readAt : ReadAt) (s : KState) (h : ProcessMemory s.mem)
    (addr length linuxProt flags : U32) (fd : Int) (pageOffset : U32)
    (hlen : length ≠ 0) (hmax : ¬ length > 64 <<< 20) (hanon : flags &&& 0x20 ≠ 0) :
    let s' := s.mmap2 readAt addr length linuxProt flags fd pageOffset
    let r := s'.cpu.regs EAX
    let size := pageAlignUp length
    let prot := Kernel.prot linuxProt
    (flags &&& 0x10 = 0 →
      (((HoleExists s.mem.space size → ¬ IsErrno r) ∧
          (¬ IsErrno r → FreshlyMapped s.mem s'.mem r size prot)) ↔
        (HoleExists s.mem.space size → linuxProt &&& 2 ≠ 0 ∧ HoleInReach s.mem.space size))) ∧
    (flags &&& 0x10 ≠ 0 → addr ≠ 0 → addr &&& 0xfff = 0 →
      ((¬ IsErrno r ∧ r = addr ∧ FreshlyMapped s.mem s'.mem addr size prot) ↔
        linuxProt &&& 2 ≠ 0 ∧ Replaceable s.mem addr size)) := by
  obtain ⟨_, _, hpage, _⟩ := pageAlignUp_spec hlen hmax
  rw [mmap2_anonymous readAt s addr hlen hmax linuxProt hanon fd pageOffset,
    ← prot_and_protWrite linuxProt]
  refine ⟨?_, ?_⟩
  · intro hfixed
    rw [decide_eq_false (not_not.mpr hfixed)]
    exact h.mapAnywhere_iff addr hpage (Kernel.prot linuxProt) rfl
  · intro hfixed haddr haligned
    rw [decide_eq_true hfixed]
    exact h.mapFixed_iff haddr haligned hpage (Kernel.prot linuxProt) rfl

theorem guarded_processMemory : ProcessMemory guarded.mem := ⟨twoRegions_wellFormed, rfl, rfl⟩

theorem guarded_holeExists : HoleExists guarded.mem.space 0x1000 := by
  refine ⟨0x8000, by decide, ?_⟩
  unfold FreeAt
  decide

theorem guarded_holeInReach : HoleInReach guarded.mem.space 0x1000 := by
  refine Or.inl ⟨0x8000, by decide, ?_⟩
  unfold FreeAt
  decide

theorem guarded_replaceable : Replaceable guarded.mem 0x1000 0x1000 := by
  refine ⟨by decide, ?_, by decide⟩
  intro x hx
  obtain ⟨h₁, h₂⟩ := hx
  refine ⟨⟨0x1000, 0x4000, 3, "a"⟩, ?_, by decide⟩
  refine twoRegions_wellFormed.mappingAt_iff.mpr ⟨List.mem_cons_self, ?_⟩
  unfold Mapping.Covers
  bv_omega

/-- Pages that may be read and written: anywhere, and in place of the first page of a region. -/
theorem mmap2_anonymous_iff_readWrite :
    (let s' := guarded.mmap2 (fun _ _ _ _ => ([], none)) 0 0x1000 3 0x22 (-1) 0;
      ¬ IsErrno (s'.cpu.regs EAX) ∧
        FreshlyMapped guarded.mem s'.mem (s'.cpu.regs EAX) 0x1000 3) ∧
    let s' := guarded.mmap2 (fun _ _ _ _ => ([], none)) 0x1000 0x1000 3 0x32 (-1) 0
    s'.cpu.regs EAX = 0x1000 ∧ FreshlyMapped guarded.mem s'.mem 0x1000 0x1000 3 := by
  have hanywhere := (mmap2_anonymous_iff (fun _ _ _ _ => ([], none)) guarded guarded_processMemory
    0 0x1000 3 0x22 (-1) 0 (by decide) (by decide) (by decide)).1 (by decide)
  have hfixed := (mmap2_anonymous_iff (fun _ _ _ _ => ([], none)) guarded guarded_processMemory
    0x1000 0x1000 3 0x32 (-1) 0 (by decide) (by decide) (by decide)).2 (by decide) (by decide)
    (by decide)
  obtain ⟨hsucc, hfresh⟩ := hanywhere.mpr fun _ => ⟨by decide, guarded_holeInReach⟩
  have hok := hsucc guarded_holeExists
  exact ⟨⟨hok, hfresh hok⟩, (hfixed.mpr ⟨by decide, guarded_replaceable⟩).2⟩

/-- A page that may only be read is refused, although there is a hole for it; and so is a
page at an address where nothing was mapped. -/
theorem mmap2_readOnly_refused :
    HoleExists guarded.mem.space 0x1000 ∧
      IsErrno ((guarded.mmap2 (fun _ _ _ _ => ([], none)) 0 0x1000 1 0x22 (-1) 0).cpu.regs EAX) ∧
      IsErrno ((guarded.mmap2 (fun _ _ _ _ => ([], none)) 0x9000 0x1000 3 0x32 (-1) 0).cpu.regs EAX) :=
  ⟨guarded_holeExists, by decide +kernel, by decide +kernel⟩

end IshGo.Kernel
