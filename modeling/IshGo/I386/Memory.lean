/-
# `IshGo.I386.Memory` — the bounded guest memory and its access checks

`internal/i386/memory.go`.  The bytes are a function on addresses of which the
first `size` belong to the guest; the source's slice `m.data` has exactly these
bytes, and no access below gets past `check` with an address beyond them.
-/
import IshGo.I386.WellFormed

namespace IshGo.I386

structure Memory where
  size : U32
  data : U32 → U8
  space : AddressSpace
  isProtected : Bool

def leBytes {w : Nat} (v : BitVec w) : (n : Nat) → List U8
  | 0 => []
  | n + 1 => v.setWidth 8 :: leBytes (v >>> 8) n

def leValue (w : Nat) : List U8 → BitVec w
  | [] => 0
  | b :: bs => b.setWidth w ||| (leValue w bs <<< 8)

/-- `n` consecutive bytes. -/
def loadBytes (data : U32 → U8) (addr : U32) : Nat → List U8
  | 0 => []
  | n + 1 => data addr :: loadBytes data (addr + 1) n

def storeBytes (data : U32 → U8) (addr : U32) : List U8 → (U32 → U8)
  | [] => data
  | b :: bs => storeBytes (fun x => if x = addr then b else data x) (addr + 1) bs

namespace Memory

/-- `NewMemory`: zero bytes, at least one. -/
def new (size : U32) : Memory :=
  { size := if size = 0 then 1 else size
    data := fun _ => 0
    space := { mappings := [], max := if size = 0 then 1 else size, nextHint := 0x01000000 }
    isProtected := false }

/-- The memory made by `NewAddressSpace`. -/
def ofNewAddressSpace (size : U32) : Memory :=
  { new (AddressSpace.new size).max with space := AddressSpace.new size }

def enableProtection (m : Memory) : Memory := { m with isProtected := true }

def check (m : Memory) (addr width : U32) : Except SpaceError Unit :=
  if addr > m.size ∨ width > m.size - addr then .error (.memoryFault addr width) else .ok ()

def checkAccess (m : Memory) (addr width : U32) (prot : U8) : Except SpaceError Unit :=
  match m.check addr width with
  | .error e => .error e
  | .ok () =>
    if m.isProtected = false ∨ width = 0 then .ok () else m.space.checkRange addr width prot

/-- A read of `width` bytes that has passed its check. -/
def readWith (m : Memory) (ok : Except SpaceError Unit) (addr : U32) (width : Nat) :
    Except SpaceError (List U8) :=
  match ok with
  | .error e => .error e
  | .ok () => .ok (loadBytes m.data addr width)

/-- A write that has passed its check.  Go's `copy` stops at the end of the
memory. -/
def writeWith (m : Memory) (ok : Except SpaceError Unit) (addr : U32) (value : List U8) :
    Except SpaceError Memory :=
  match ok with
  | .error e => .error e
  | .ok () =>
    .ok { m with data := storeBytes m.data addr (value.take (m.size.toNat - addr.toNat)) }

def fetch8 (m : Memory) (addr : U32) : Except SpaceError U8 :=
  (m.readWith (m.checkAccess addr 1 protExec) addr 1).map (leValue 8)

def read8 (m : Memory) (addr : U32) : Except SpaceError U8 :=
  (m.readWith (m.checkAccess addr 1 protRead) addr 1).map (leValue 8)

def read16 (m : Memory) (addr : U32) : Except SpaceError U16 :=
  (m.readWith (m.checkAccess addr 2 protRead) addr 2).map (leValue 16)

def read32 (m : Memory) (addr : U32) : Except SpaceError U32 :=
  (m.readWith (m.checkAccess addr 4 protRead) addr 4).map (leValue 32)

def readBytes (m : Memory) (addr size : U32) : Except SpaceError (List U8) :=
  m.readWith (m.checkAccess addr size protRead) addr size.toNat

def writeBytes (m : Memory) (addr : U32) (value : List U8) : Except SpaceError Memory :=
  m.writeWith (m.checkAccess addr (BitVec.ofNat 32 value.length) protWrite) addr value

/-- The loop of `ReadCString` over the bytes that are left. -/
def readCStringLoop (m : Memory) : Nat → U32 → Option (List U8)
  | 0, _ => none
  | n + 1, addr =>
    match m.read8 addr with
    | .error _ => none
    | .ok value => if value = 0 then some [] else (m.readCStringLoop n (addr + 1)).map (value :: ·)

/-- `ReadCString`; `none` stands for its errors. -/
def readCString (m : Memory) (addr max : U32) : Option (List U8) :=
  if max = 0 then some []
  else
    match m.check addr 1 with
    | .error _ => none
    | .ok () =>
      m.readCStringLoop (if max < m.size - addr then max else m.size - addr).toNat addr

def write8 (m : Memory) (addr : U32) (value : U8) : Except SpaceError Memory :=
  m.writeBytes addr (leBytes value 1)

def write16 (m : Memory) (addr : U32) (value : U16) : Except SpaceError Memory :=
  m.writeBytes addr (leBytes value 2)

def write32 (m : Memory) (addr : U32) (value : U32) : Except SpaceError Memory :=
  m.writeBytes addr (leBytes value 4)

end Memory

end IshGo.I386
