/-
# `IshGo.Kernel.Mappings` — `mmap2` and `mremap`

`mmap2` and `mremap` of `internal/kernel/syscall.go`.  Both work on the mapping table and
on the bytes behind it, and reach the bytes through the accessors that the guest uses:
what is saved must be readable, and what is filled must be writable.
-/
import IshGo.Kernel.State

namespace IshGo.Kernel

open I386

/-- `-ENOMEM` -/
def enomem : U32 := -12

def pageAlignUp (v : U32) : U32 :=
  if v > 0xffffffff - 4095 then 0xffffffff else (v + 4095) &&& ~~~4095

/-- `make([]byte, n)` -/
def zeroBytes (n : U32) : List U8 := List.replicate n.toNat 0

/-- `(*os.File).ReadAt` into a buffer of `len` bytes: the bytes that were read. -/
abbrev ReadAt := (tick file len offset : Nat) → List U8 × Option IOErr

/-! ## `mmap2` -/

/-- The contents of a file mapping: the buffer after `ReadAt`, or the error returned. -/
def KState.mappedFile (s : KState) (readAt : ReadAt) (fd : Int) (length pageOffset : U32) :
    Except U32 (List U8) × KState :=
  match s.handleForFD fd with
  | some (.file id) =>
    let r := readAt s.objs.tick id length.toNat (pageOffset.toNat * 4096)
    let s := { s with objs := s.objs.nextTick }
    if r.2 ≠ none ∧ r.2 ≠ some .eof then (.error efault, s)
    else (.ok (r.1.take length.toNat ++ List.replicate (length.toNat - r.1.length) 0), s)
  | _ => (.error ebadf, s)

/-- The closure `restore` of `mmap2`, for a fixed mapping: the old table, and the old bytes
as far as they can be written. -/
def restoreFixed (oldMappings : List Mapping) (addr : U32) (oldData : List U8) (mem : Memory) :
    Memory :=
  let mem := { mem with space := { mem.space with mappings := oldMappings } }
  (mem.writeBytes addr oldData).toOption.getD mem

/-- `_ = Space.Remove(start, size)` -/
def Memory.discard (mem : Memory) (start size : U32) : Memory :=
  { mem with space := (mem.space.remove start size).toOption.getD mem.space }

/-- A new mapping, filled with `data`. -/
def mapAndFill (mem : Memory) (addr length : U32) (prot : U8) (data : List U8)
    (restore : Memory → Memory) : U32 × Memory :=
  let r := mem.space.mapAnonymous addr length prot "mmap2"
  let mem := { mem with space := r.2 }
  match r.1 with
  | .error _ => (enomem, restore mem)
  | .ok mapped =>
    match mem.writeBytes mapped data with
    | .error _ => (efault, restore (Memory.discard mem mapped length))
    | .ok mem => (mapped, mem)

/-- `MAP_FIXED`: what is there gives way, and comes back if the call fails. -/
def mapFixed (mem : Memory) (addr length : U32) (prot : U8) (data : List U8) : U32 × Memory :=
  if addr > mem.space.max ∨ length > mem.space.max - addr ∨ addr &&& 0xfff ≠ 0 then (enomem, mem)
  else
    match mem.readBytes addr length with
    | .error _ => (efault, mem)
    | .ok oldData =>
      let restore := restoreFixed mem.space.mappings addr oldData
      match mem.space.remove addr length with
      | .error _ => (efault, restore mem)
      | .ok space => mapAndFill { mem with space := space } addr length prot data restore

/-- The address that a mapping without `MAP_FIXED` is tried at; `0` asks for a hole. -/
def mapHint (a : AddressSpace) (addr length : U32) : U32 :=
  if addr < 0x1000 ∨ addr > a.max ∨ length > a.max - addr ∨ addr &&& 0xfff ≠ 0 ∨
    a.isFree addr (addr + length) = false then 0
  else addr

/-- `mmap2` after the checks and the read of the file. -/
def mapMemory (mem : Memory) (fixed : Bool) (addr length : U32) (prot : U8) (data : List U8) :
    U32 × Memory :=
  if fixed then mapFixed mem addr length prot data
  else mapAndFill mem (mapHint mem.space addr length) length prot data id

def KState.withMemory (s : KState) (r : U32 × Memory) : KState := { s with mem := r.2 }.ret r.1

def KState.mmap2 (s : KState) (readAt : ReadAt) (addr length linuxProt flags : U32) (fd : Int)
    (pageOffset : U32) : KState :=
  if length = 0 ∨ length > 64 <<< 20 then s.ret einval
  else
    let length := pageAlignUp length
    if length = 0 then s.ret einval
    else
      let r :=
        if flags &&& 0x20 ≠ 0 then (.ok (zeroBytes length), s)
        else s.mappedFile readAt fd length pageOffset
      match r.1 with
      | .error e => r.2.ret e
      | .ok data =>
        r.2.withMemory
          (mapMemory r.2.mem (flags &&& 0x10 ≠ 0) addr length (Kernel.prot linuxProt) data)

/-! ## `mremap` -/

/-- The loop of `mremap` over the mappings that continue the first one.  The cursor moves in
every turn, so the end of the range is fuel enough. -/
def coveredLoop (a : AddressSpace) (first : Mapping) (oldEnd : U32) : Nat → U32 → Bool
  | 0, _ => true
  | fuel + 1, coveredEnd =>
    if coveredEnd < oldEnd then
      match a.mappingAt coveredEnd with
      | none => false
      | some next =>
        if next.start ≠ coveredEnd ∨ next.prot ≠ first.prot ∨ next.name ≠ first.name then false
        else coveredLoop a first oldEnd fuel next.endAddr
    else true

/-- Growth in place.  A new part that cannot be filled is unmapped again. -/
def growInPlace (mem : Memory) (m : Mapping) (oldEnd newEnd grow : U32) : Bool × Memory :=
  if newEnd ≥ oldEnd ∧ newEnd ≤ mem.space.max ∧ mem.space.isFree oldEnd newEnd then
    match mem.space.add oldEnd grow m.prot m.name with
    | .error _ => (false, mem)
    | .ok space =>
      let mem := { mem with space := space }
      match mem.writeBytes oldEnd (zeroBytes grow) with
      | .ok mem => (true, mem)
      | .error _ => (false, Memory.discard mem oldEnd grow)
  else (false, mem)

/-- The new mapping of a move, at `target` or in a hole. -/
def moveTo (mem : Memory) (m : Mapping) (oldAddr oldSize newSize target : U32) (oldData : List U8) :
    U32 × Memory :=
  let r := mem.space.mapAnonymous target newSize m.prot m.name
  let mem := { mem with space := r.2 }
  match r.1 with
  | .error _ => (enomem, mem)
  | .ok moved =>
    match mem.writeBytes moved (zeroBytes newSize) with
    | .error _ => (efault, Memory.discard mem moved newSize)
    | .ok mem =>
      match mem.writeBytes moved oldData with
      | .error _ => (efault, Memory.discard mem moved newSize)
      | .ok mem =>
        match mem.space.remove oldAddr oldSize with
        | .error _ => (efault, Memory.discard mem moved newSize)
        | .ok space => (moved, { mem with space := space })

/-- `MREMAP_MAYMOVE`, with `MREMAP_FIXED` or without. -/
def moveMapping (mem : Memory) (m : Mapping) (oldAddr oldSize newSize flags newAddr : U32) :
    U32 × Memory :=
  if flags &&& 1 = 0 then (enomem, mem)
  else
    match mem.readBytes oldAddr oldSize with
    | .error _ => (efault, mem)
    | .ok oldData =>
      if flags &&& 2 ≠ 0 then
        if newAddr &&& 0xfff ≠ 0 ∨ newAddr > mem.space.max ∨ newSize > mem.space.max - newAddr ∨
          mem.space.isFree newAddr (newAddr + newSize) = false then (einval, mem)
        else moveTo mem m oldAddr oldSize newSize newAddr oldData
      else moveTo mem m oldAddr oldSize newSize 0 oldData

/-- `mremap` of a range that one mapping, or several alike, cover. -/
def resize (mem : Memory) (m : Mapping) (oldAddr oldSize newSize flags newAddr : U32) :
    U32 × Memory :=
  if oldSize = newSize then (oldAddr, mem)
  else if newSize < oldSize then
    match mem.space.remove (oldAddr + newSize) (oldSize - newSize) with
    | .error _ => (einval, mem)
    | .ok space => (oldAddr, { mem with space := space })
  else
    let r := growInPlace mem m (oldAddr + oldSize) (oldAddr + newSize) (newSize - oldSize)
    if r.1 then (oldAddr, r.2) else moveMapping r.2 m oldAddr oldSize newSize flags newAddr

def mremap (mem : Memory) (oldAddr oldLength newLength flags newAddr : U32) : U32 × Memory :=
  match pageLength oldLength, pageLength newLength with
  | some oldSize, some newSize =>
    if oldAddr &&& 0xfff ≠ 0 ∨ oldAddr > mem.space.max ∨ oldSize > mem.space.max - oldAddr then
      (einval, mem)
    else
      match mem.space.mappingAt oldAddr with
      | none => (einval, mem)
      | some m =>
        let oldEnd := oldAddr + oldSize
        if coveredLoop mem.space m oldEnd oldEnd.toNat m.endAddr = false then (einval, mem)
        else resize mem m oldAddr oldSize newSize flags newAddr
  | _, _ => (einval, mem)

/-! ## The four calls on mappings -/

inductive MappingCall where
  | mmap2 (addr length linuxProt flags : U32) (fd : Int) (pageOffset : U32)
  | mremap (oldAddr oldLength newLength flags newAddr : U32)
  | munmap (addr length : U32)
  | mprotect (addr length linuxProt : U32)

/-- `munmap` and `mprotect` leave the bytes alone. -/
def onTable (mem : Memory) (r : U32 × AddressSpace) : U32 × Memory := (r.1, { mem with space := r.2 })

def MappingCall.run (readAt : ReadAt) (s : KState) : MappingCall → KState
  | mmap2 addr length linuxProt flags fd pageOffset =>
    s.mmap2 readAt addr length linuxProt flags fd pageOffset
  | mremap oldAddr oldLength newLength flags newAddr =>
    s.withMemory (Kernel.mremap s.mem oldAddr oldLength newLength flags newAddr)
  | munmap addr length => s.withMemory (onTable s.mem (Kernel.munmap s.mem.space addr length))
  | mprotect addr length linuxProt =>
    s.withMemory (onTable s.mem (Kernel.mprotect s.mem.space addr length linuxProt))

end IshGo.Kernel
