/-
# `IshGo.Kernel.MapAtomic` — a mapping call that fails leaves the memory as it was

`mmap2`, `mremap`, `munmap` and `mprotect`, on a well-formed table, with any arguments and
with protection on or off: if the value returned is an error number, the mappings and the
bytes are those from before the call (`mapping_call_atomic`).  `nextHint` may have moved.
-/
import IshGo.Kernel.Lookup
import IshGo.Kernel.Mappings

namespace IshGo.Kernel

open I386 Lib AddressSpace Memory

variable {mem mem' : Memory} {addr newSize : U32}
variable {a : AddressSpace} {mapped v : U32} {name : String} {prot : U8} {s s' : KState}
variable {length size : U32}

/-- The numbers from `-4095` to `-1`. -/
def IsErrno (v : U32) : Prop := v > 0xfffff000

instance (v : U32) : Decidable (IsErrno v) := inferInstanceAs (Decidable (_ > _))

theorem isErrno_enomem : IsErrno enomem := by decide
theorem isErrno_efault : IsErrno efault := by decide
theorem isErrno_einval : IsErrno einval := by decide
theorem not_isErrno_zero : ¬ IsErrno 0 := by decide

/-! ## Rounded lengths -/

theorem and_page_eq_zero {x : U32} : x &&& 0xfff = 0 ↔ x.toNat % 4096 = 0 := by
  have h := @toNat_and_mask 32 x 12 (by decide)
  rw [← BitVec.toNat_inj]
  exact ⟨fun h0 => h.symm.trans h0, fun h0 => h.trans h0⟩

theorem pageAlignUp_spec (h0 : length ≠ 0) (hmax : ¬ length > 64 <<< 20) :
    (pageAlignUp length).toNat % 4096 = 0 ∧ length.toNat ≤ (pageAlignUp length).toNat ∧
      4096 ≤ (pageAlignUp length).toNat ∧ (pageAlignUp length).toNat ≤ 64 * 2 ^ 20 := by
  have hle : length.toNat ≤ 64 * 2 ^ 20 := by
    have : ¬ length > (67108864 : U32) := hmax
    bv_omega
  have hpage := toNat_and_not_page (length + 4095)
  have hsum : (length + 4095).toNat = length.toNat + 4095 := by bv_omega
  have hpos : 0 < length.toNat := by bv_omega
  rw [pageAlignUp, if_neg (by bv_omega), hpage, hsum]
  refine ⟨?_, ?_, ?_, ?_⟩ <;> omega

def roundUp (length : U32) : Nat := (length.toNat + 4095) / 4096 * 4096

/-- The last length that `PageLength` accepts wraps to `0`; the others are rounded up. -/
theorem pageLength_spec (h : pageLength length = some size) :
    (length = 0xfffff001 ∧ size = 0) ∨
      (length ≠ 0xfffff001 ∧ size.toNat = roundUp length ∧ 4096 ≤ size.toNat) := by
  unfold pageLength at h
  split at h
  · cases h
  cases h
  by_cases hlast : length = 0xfffff001
  · subst hlast
    exact Or.inl ⟨rfl, rfl⟩
  have hpage := toNat_and_not_page (length + 4095)
  have hsum : (length + 4095).toNat = length.toNat + 4095 := by bv_omega
  have hpos : 0 < length.toNat := by bv_omega
  unfold roundUp
  exact Or.inr ⟨hlast, by omega, by omega⟩

/-- A page that is inside the space does not begin among the error numbers. -/
theorem not_isErrno_of_fits (hsize : 4096 ≤ size.toNat)
    (hfits : addr.toNat + size.toNat ≤ a.max.toNat) : ¬ IsErrno addr := by
  unfold IsErrno
  bv_omega

/-! ## Undoing -/

theorem storeBytes_loadBytes (data : U32 → U8) : ∀ (n : Nat) (addr : U32),
    storeBytes data addr (loadBytes data addr n) = data
  | 0, _ => rfl
  | n + 1, addr => by
      have hsame : (fun x => if x = addr then data addr else data x) = data := by
        funext x
        split
        · rename_i hx
          rw [hx]
        · rfl
      rw [loadBytes, storeBytes, hsame, storeBytes_loadBytes data n]

/-- The table has its old entries, and what they cover its old bytes. -/
structure Unchanged (mem mem' : Memory) : Prop where
  mappings : mem'.space.mappings = mem.space.mappings
  bytes : ∀ x m, mem.space.mappingAt x = some m → mem'.data x = mem.data x

theorem Unchanged.of_data (hmappings : mem'.space.mappings = mem.space.mappings)
    (hdata : mem'.data = mem.data) : Unchanged mem mem' :=
  ⟨hmappings, fun x _ _ => by rw [hdata]⟩

theorem Unchanged.refl (mem : Memory) : Unchanged mem mem := .of_data rfl rfl

def Atomic (mem : Memory) (r : U32 × Memory) : Prop := IsErrno r.1 → Unchanged mem r.2

theorem Atomic.same (v : U32) : Atomic mem (v, mem) := fun _ => Unchanged.refl mem

theorem Atomic.of_unchanged (h : Unchanged mem mem') : Atomic mem (v, mem') := fun _ => h

theorem Atomic.success (h : ¬ IsErrno v) : Atomic mem (v, mem') := fun herr => absurd herr h

theorem restoreFixed_eq (mem : Memory) (hdata : mem'.data = mem.data) (addr : U32) {n : Nat}
    (hn : n < 2 ^ 32) :
    Unchanged mem (restoreFixed mem.space.mappings addr (loadBytes mem.data addr n) mem') := by
  unfold restoreFixed
  dsimp only
  cases hw : Memory.writeBytes _ addr (loadBytes mem.data addr n) with
  | error e => exact .of_data rfl hdata
  | ok mem₁ =>
    have hok := writeBytes_checked hw
    rw [writeBytes_eq hok (by simpa using hn)] at hw
    cases hw
    refine .of_data rfl ?_
    show storeBytes mem'.data addr _ = _
    rw [hdata, storeBytes_loadBytes]

/-! ## `mmap2` -/

/-- A new mapping is made and filled, or nothing is written and the table is handed to
`restore`; a well-formed table has its old entries again. -/
theorem mapAndFill_cases (mem : Memory) (addr length : U32) (prot : U8) (data : List U8)
    (restore : Memory → Memory) :
    (∃ next mapped space mem',
        { mem.space with nextHint := next }.add mapped length prot "mmap2" = .ok space ∧
        { mem with space := space }.writeBytes mapped data = .ok mem' ∧
        (addr ≠ 0 → mapped = addr) ∧
        mapAndFill mem addr length prot data restore = (mapped, mem')) ∨
      ∃ e mem', IsErrno e ∧ mapAndFill mem addr length prot data restore = (e, restore mem') ∧
        mem'.data = mem.data ∧
        (mem.space.WellFormed → mem'.space.mappings = mem.space.mappings) := by
  obtain ⟨next, ⟨e, hmap⟩ | ⟨mapped, space, hmap, hadd, haddr⟩⟩ :=
    mapAnonymous_cases mem.space addr length prot "mmap2"
  · refine Or.inr ⟨enomem, { mem with space := { mem.space with nextHint := next } },
      isErrno_enomem, ?_, rfl, fun _ => rfl⟩
    rw [mapAndFill, hmap]
  cases hw : { mem with space := space }.writeBytes mapped data with
  | ok mem' =>
    refine Or.inl ⟨next, mapped, space, mem', hadd, hw, haddr, ?_⟩
    rw [mapAndFill, hmap]
    dsimp only
    rw [hw]
  | error e =>
    refine Or.inr ⟨efault, Memory.discard { mem with space := space } mapped length,
      isErrno_efault, ?_, rfl, fun hwf => ?_⟩
    · rw [mapAndFill, hmap]
      dsimp only
      rw [hw]
    · show ((space.remove mapped length).toOption.getD space).mappings = _
      rw [(hwf.nextHint next).remove_add hadd]
      rfl

theorem not_isErrno_of_add {a' : AddressSpace}
    (hlen : 4096 ≤ length.toNat) (hadd : a.add mapped length prot name = .ok a') : ¬ IsErrno mapped :=
  not_isErrno_of_fits hlen (accepted (add_ok hadd).1).2.2

theorem atomic_mapFixed (mem : Memory) (addr : U32) (hlen : 4096 ≤ length.toNat)
    (prot : U8) (data : List U8) : Atomic mem (mapFixed mem addr length prot data) := by
  unfold mapFixed
  split
  · exact .same enomem
  cases hr : mem.readBytes addr length with
  | error e => exact .same efault
  | ok oldData =>
    obtain ⟨_, rfl⟩ := readWith_ok hr
    cases hrem : mem.space.remove addr length with
    | error e => exact .of_unchanged (restoreFixed_eq mem rfl addr length.isLt)
    | ok space =>
      dsimp only
      rcases mapAndFill_cases { mem with space := space } addr length prot data
          (restoreFixed mem.space.mappings addr (loadBytes mem.data addr length.toNat)) with
        ⟨next, mapped, space', mem', hadd, _, _, heq⟩ | ⟨e, mem', _, heq, hdata, _⟩
      · rw [heq]
        exact .success (not_isErrno_of_add hlen hadd)
      · rw [heq]
        exact .of_unchanged (restoreFixed_eq mem hdata addr length.isLt)

theorem atomic_mapMemory (h : mem.space.WellFormed) (fixed : Bool) (addr : U32)
    (hlen : 4096 ≤ length.toNat) (prot : U8) (data : List U8) :
    Atomic mem (mapMemory mem fixed addr length prot data) := by
  unfold mapMemory
  split
  · exact atomic_mapFixed mem addr hlen prot data
  rcases mapAndFill_cases mem (mapHint mem.space addr length) length prot data id with
    ⟨next, mapped, space, mem', hadd, _, _, heq⟩ | ⟨e, mem', _, heq, hdata, hmappings⟩
  · rw [heq]
    exact .success (not_isErrno_of_add hlen hadd)
  · rw [heq]
    exact .of_unchanged (.of_data (hmappings h) hdata)

/-! ## `mremap` -/

theorem growInPlace_cases (h : mem.space.WellFormed) (m : Mapping) (oldEnd newEnd grow : U32) :
    (∃ space mem', mem.space.add oldEnd grow m.prot m.name = .ok space ∧
        { mem with space := space }.writeBytes oldEnd (zeroBytes grow) = .ok mem' ∧
        growInPlace mem m oldEnd newEnd grow = (true, mem')) ∨
      growInPlace mem m oldEnd newEnd grow = (false, mem) := by
  unfold growInPlace
  split
  · cases hadd : mem.space.add oldEnd grow m.prot m.name with
    | error e => exact Or.inr rfl
    | ok space =>
      dsimp only
      cases hw : { mem with space := space }.writeBytes oldEnd (zeroBytes grow) with
      | ok mem' => exact Or.inl ⟨space, mem', rfl, hw, rfl⟩
      | error e =>
        refine Or.inr (Prod.ext rfl ?_)
        show Memory.discard { mem with space := space } oldEnd grow = mem
        obtain ⟨_, _, rfl⟩ := add_ok hadd
        rw [Memory.discard, h.remove_add hadd]
        rfl
  · exact Or.inr rfl

theorem unchanged_discard (h : mem.space.WellFormed) {next : U32} {space : AddressSpace}
    (hadd : { mem.space with nextHint := next }.add mapped size prot name = .ok space)
    (hspace : mem'.space = space)
    (hdata : ∀ x, ¬ AddressSpace.InRange mapped size x → mem'.data x = mem.data x) :
    Unchanged mem (Memory.discard mem' mapped size) := by
  have hwf := h.nextHint next
  constructor
  · show ((mem'.space.remove mapped size).toOption.getD mem'.space).mappings = _
    rw [hspace, hwf.remove_add hadd]
    rfl
  intro x m hat
  refine hdata x fun hx => ?_
  have hnone := hwf.mappingAt_before_add hadd hx
  rw [show mappingAt { mem.space with nextHint := next } x = some m from hat] at hnone
  cases hnone

theorem writeBytes_outside {bytes : List U8} (hlen : bytes.length ≤ size.toNat)
    (hfits : addr.toNat + size.toNat < 2 ^ 32) (h : mem.writeBytes addr bytes = .ok mem') :
    mem'.space = mem.space ∧ ∀ x, ¬ AddressSpace.InRange addr size x → mem'.data x = mem.data x := by
  have hlt : bytes.length < 2 ^ 32 := by omega
  obtain rfl := writeBytes_result h hlt
  refine ⟨rfl, fun x hx => storeBytes_of_outside fun i hi heq => hx ?_⟩
  unfold AddressSpace.InRange
  bv_omega

theorem atomic_moveTo (h : mem.space.WellFormed) (m : Mapping) (oldAddr oldSize : U32)
    (hnew : 4096 ≤ newSize.toNat) (target : U32) {oldData : List U8}
    (hdata : oldData.length ≤ newSize.toNat) :
    Atomic mem (moveTo mem m oldAddr oldSize newSize target oldData) := by
  unfold moveTo
  obtain ⟨next, ⟨e, hmap⟩ | ⟨moved, space, hmap, hadd, _⟩⟩ :=
    mapAnonymous_cases mem.space target newSize m.prot m.name
  · rw [hmap]
    exact .of_unchanged (.of_data rfl rfl)
  have hfits := add_fits hadd
  rw [hmap]
  dsimp only
  cases hw₁ : { mem with space := space }.writeBytes moved (zeroBytes newSize) with
  | error e => exact .of_unchanged (unchanged_discard h hadd rfl fun x _ => rfl)
  | ok mem₁ =>
    dsimp only
    obtain ⟨hspace₁, hdata₁⟩ := writeBytes_outside (by simp [zeroBytes]) hfits hw₁
    cases hw₂ : mem₁.writeBytes moved oldData with
    | error e => exact .of_unchanged (unchanged_discard h hadd hspace₁ hdata₁)
    | ok mem₂ =>
      dsimp only
      obtain ⟨hspace₂, hdata₂⟩ := writeBytes_outside hdata hfits hw₂
      cases hrem : mem₂.space.remove oldAddr oldSize with
      | error e =>
        refine .of_unchanged
          (unchanged_discard h hadd (hspace₂.trans hspace₁) fun x hx => ?_)
        rw [hdata₂ x hx, hdata₁ x hx]
      | ok space' => exact .success (not_isErrno_of_add hnew hadd)

theorem atomic_moveMapping (h : mem.space.WellFormed) (m : Mapping) (oldAddr : U32) {oldSize : U32}
    (hlt : oldSize < newSize) (hnew : 4096 ≤ newSize.toNat) (flags newAddr : U32) :
    Atomic mem (moveMapping mem m oldAddr oldSize newSize flags newAddr) := by
  unfold moveMapping
  split
  · exact .same enomem
  cases hr : mem.readBytes oldAddr oldSize with
  | error e => exact .same efault
  | ok oldData =>
    obtain ⟨_, rfl⟩ := readWith_ok hr
    have hlen : (loadBytes mem.data oldAddr oldSize.toNat).length ≤ newSize.toNat := by
      rw [length_loadBytes]
      bv_omega
    dsimp only
    split
    · split
      · exact .same einval
      · exact atomic_moveTo h m oldAddr oldSize hnew newAddr hlen
    · exact atomic_moveTo h m oldAddr oldSize hnew 0 hlen

theorem atomic_resize (h : mem.space.WellFormed) (m : Mapping) {oldAddr : U32}
    (haddr : ¬ IsErrno oldAddr) (oldSize : U32) (hnew : oldSize < newSize → 4096 ≤ newSize.toNat)
    (flags newAddr : U32) : Atomic mem (resize mem m oldAddr oldSize newSize flags newAddr) := by
  unfold resize
  split
  · exact .same oldAddr
  split
  · cases mem.space.remove (oldAddr + newSize) (oldSize - newSize) with
    | error e => exact .same einval
    | ok space => exact .success haddr
  have hlt : oldSize < newSize := by bv_omega
  rcases growInPlace_cases h m (oldAddr + oldSize) (oldAddr + newSize) (newSize - oldSize) with
    ⟨space, mem', _, _, hgrow⟩ | hgrow
  · rw [hgrow]
    exact .success haddr
  · rw [hgrow]
    exact atomic_moveMapping h m oldAddr hlt (hnew hlt) flags newAddr

theorem not_isErrno_of_page (h : ¬ addr &&& 0xfff ≠ 0) : ¬ IsErrno addr := by
  have hpage := and_page_eq_zero.mp (not_not.mp h)
  unfold IsErrno
  bv_omega

theorem atomic_mremap (h : mem.space.WellFormed) (oldAddr oldLength newLength flags newAddr : U32) :
    Atomic mem (mremap mem oldAddr oldLength newLength flags newAddr) := by
  unfold mremap
  split
  · rename_i oldSize newSize hold hnew
    split
    · exact .same einval
    rename_i hargs
    have haddr := not_isErrno_of_page (not_or.mp hargs).1
    cases mem.space.mappingAt oldAddr with
    | none => exact .same einval
    | some m =>
      dsimp only
      split
      · exact .same einval
      refine atomic_resize h m haddr oldSize (fun hlt => ?_) flags newAddr
      rcases pageLength_spec hnew with ⟨_, rfl⟩ | ⟨_, _, hpage⟩
      · bv_omega
      · exact hpage
  · exact .same einval

/-! ## All four calls -/

theorem atomic_munmap (mem : Memory) (addr length : U32) :
    Atomic mem (onTable mem (munmap mem.space addr length)) := by
  unfold munmap
  split
  · exact .same einval
  split
  · exact .same einval
  · split
    · exact .same einval
    · exact .success not_isErrno_zero

theorem atomic_mprotect (mem : Memory) (addr length linuxProt : U32) :
    Atomic mem (onTable mem (mprotect mem.space addr length linuxProt)) := by
  unfold mprotect
  split
  · exact .same einval
  split
  · exact .same einval
  · split
    · exact .same einval
    · exact .success not_isErrno_zero

/-- The bytes of a file: neither the memory nor the kernel is touched, and what is returned instead
is an error number. -/
theorem mappedFile_spec (s : KState) (readAt : ReadAt) (fd : Int) (length pageOffset : U32) :
    let r := s.mappedFile readAt fd length pageOffset
    r.2.mem = s.mem ∧ r.2.kern = s.kern ∧ ∀ e, r.1 = .error e → IsErrno e := by
  dsimp only
  unfold KState.mappedFile
  split
  · dsimp only
    split
    · exact ⟨rfl, rfl, fun e he => by cases he; exact isErrno_efault⟩
    · exact ⟨rfl, rfl, fun e he => by cases he⟩
  · exact ⟨rfl, rfl, fun e he => by cases he; decide⟩

/-- `mmap2` fails before it maps anything, or maps bytes that come from somewhere. -/
theorem mmap2_cases (readAt : ReadAt) (s : KState) (addr length linuxProt flags : U32) (fd : Int)
    (pageOffset : U32) : ∃ s' : KState, s'.mem = s.mem ∧ s'.kern = s.kern ∧
      ((∃ e, IsErrno e ∧ s.mmap2 readAt addr length linuxProt flags fd pageOffset = s'.ret e) ∨
        (length ≠ 0 ∧ ¬ length > 64 <<< 20 ∧ ∃ data,
          s.mmap2 readAt addr length linuxProt flags fd pageOffset = s'.withMemory
            (mapMemory s.mem (flags &&& 0x10 ≠ 0) addr (pageAlignUp length) (Kernel.prot linuxProt)
              data))) := by
  unfold KState.mmap2
  split
  · exact ⟨s, rfl, rfl, .inl ⟨einval, isErrno_einval, rfl⟩⟩
  rename_i hlen
  obtain ⟨h₀, hmax⟩ := not_or.mp hlen
  dsimp only
  split
  · exact ⟨s, rfl, rfl, .inl ⟨einval, isErrno_einval, rfl⟩⟩
  generalize hr : (if flags &&& 0x20 ≠ 0 then (Except.ok (zeroBytes (pageAlignUp length)), s)
    else s.mappedFile readAt fd (pageAlignUp length) pageOffset) = r
  have hspec : r.2.mem = s.mem ∧ r.2.kern = s.kern ∧ ∀ e, r.1 = .error e → IsErrno e := by
    rw [← hr]
    split
    · exact ⟨rfl, rfl, fun e he => by cases he⟩
    · exact mappedFile_spec s readAt fd (pageAlignUp length) pageOffset
  obtain ⟨hmem, hkern, herr⟩ := hspec
  refine ⟨r.2, hmem, hkern, ?_⟩
  cases hdata : r.1 with
  | error e => exact .inl ⟨e, herr e hdata, rfl⟩
  | ok data =>
    rw [hmem]
    exact .inr ⟨h₀, hmax, data, rfl⟩

/-- `Atomic`, of a call on a whole state. -/
def AtomicCall (s s' : KState) : Prop := IsErrno (s'.cpu.regs EAX) → Unchanged s.mem s'.mem

theorem AtomicCall.ret (hmem : s'.mem = s.mem) (v : U32) : AtomicCall s (s'.ret v) := by
  intro _
  rw [show (s'.ret v).mem = s.mem from hmem]
  exact Unchanged.refl s.mem

theorem AtomicCall.withMemory (s : KState) {r : U32 × Memory}
    (h : Atomic s.mem r) : AtomicCall s (s'.withMemory r) := h

theorem atomicCall_mmap2 (readAt : ReadAt) (h : s.mem.space.WellFormed)
    (addr length linuxProt flags : U32) (fd : Int) (pageOffset : U32) :
    AtomicCall s (s.mmap2 readAt addr length linuxProt flags fd pageOffset) := by
  obtain ⟨s', hmem, -, ⟨e, -, heq⟩ | ⟨h₀, hmax, data, heq⟩⟩ :=
    mmap2_cases readAt s addr length linuxProt flags fd pageOffset
  · rw [heq]
    exact .ret hmem e
  · obtain ⟨_, _, hpage, _⟩ := pageAlignUp_spec h₀ hmax
    rw [heq]
    exact .withMemory s (atomic_mapMemory h _ addr hpage (Kernel.prot linuxProt) data)

/-- A call that returns an error number has changed no mapping, and no byte that is mapped.

The bytes of addresses that are not mapped are not the guest's: `mremap` can have used them
for a target it then gives up. -/
theorem mapping_call_atomic (readAt : ReadAt) (s : KState) (h : s.mem.space.WellFormed)
    (c : MappingCall) (herr : IsErrno ((c.run readAt s).cpu.regs EAX)) :
    Unchanged s.mem (c.run readAt s).mem := by
  cases c with
  | mmap2 addr length linuxProt flags fd pageOffset =>
    exact atomicCall_mmap2 readAt h addr length linuxProt flags fd pageOffset herr
  | mremap oldAddr oldLength newLength flags newAddr =>
    exact atomic_mremap h oldAddr oldLength newLength flags newAddr herr
  | munmap addr length => exact atomic_munmap s.mem addr length herr
  | mprotect addr length linuxProt => exact atomic_mprotect s.mem addr length linuxProt herr

def guarded : KState :=
  KState.new true none CPU.new
    { size := 0x10000, data := fun x => x.setWidth 8, space := twoRegions
      isProtected := true }
    Objects.new

/-- A read-only page, to replace the first one of the region that can be written.  The page
is unmapped and mapped again before the call finds that it cannot fill it. -/
def replaceReadOnly : MappingCall := .mmap2 0x1000 0x1000 1 0x32 (-1) 0

theorem mapping_call_atomic_replaceReadOnly :
    let s' := replaceReadOnly.run (fun _ _ _ _ => ([], none)) guarded
    IsErrno (s'.cpu.regs EAX) ∧ Unchanged guarded.mem s'.mem :=
  have herr : IsErrno ((replaceReadOnly.run (fun _ _ _ _ => ([], none)) guarded).cpu.regs EAX) := by
    decide +kernel
  ⟨herr, mapping_call_atomic _ guarded twoRegions_wellFormed replaceReadOnly herr⟩

end IshGo.Kernel
