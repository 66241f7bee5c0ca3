/-
# `IshGo.I386.AddressSpace` — the mapping table of a guest

`internal/i386/address_space.go`, function by function.  An `AddressSpace` is
the table beside the guest's bytes: which ranges are mapped, with which
permissions, and where the next search for a hole starts.  The bytes themselves
are in `IshGo.I386.Memory`, which holds the table its accesses are checked
against.
-/
import IshGo.Lib.InPlace
import Mathlib.Data.List.Sort

namespace IshGo.I386

open Lib

abbrev U8 := BitVec 8
abbrev U16 := BitVec 16
abbrev U32 := BitVec 32
abbrev U64 := BitVec 64

def protRead : U8 := 1
def protWrite : U8 := 2
def protExec : U8 := 4

/-- A mapped range `[start, endAddr)`. -/
structure Mapping where
  start : U32
  endAddr : U32
  prot : U8
  name : String
  deriving DecidableEq, Repr

/-- `x` is one of the mapping's addresses. -/
def Mapping.Covers (m : Mapping) (x : U32) : Prop := m.start ≤ x ∧ x < m.endAddr

instance (m : Mapping) (x : U32) : Decidable (m.Covers x) :=
  inferInstanceAs (Decidable (_ ∧ _))

/-- The errors of `address_space.go`, with the numbers their texts print. -/
inductive SpaceError where
  | invalidMapping (start size : U32)
  | mappingOverlaps (start endAddr : U32)
  | invalidUnmap (start size : U32)
  | invalidProtectRange
  | protectRangeNotMapped
  | invalidHoleSize (size : U32)
  | noGuestMappingHole (size : U32)
  | memoryFault (addr width : U32)
  | unmappedAccess (addr width : U32)
  | protectionFault (addr width : U32) (prot need : U8)
  | invalidMappingAt (addr : U32)
  | requestedMappingOutside
  | requestedMappingOverlaps
  deriving DecidableEq, Repr

structure AddressSpace where
  mappings : List Mapping
  max : U32
  nextHint : U32
  deriving DecidableEq, Repr

namespace AddressSpace

/-- `NewAddressSpace`: at least 64 KiB, nothing mapped. -/
def new (size : U32) : AddressSpace :=
  { mappings := [], max := if size < 64 * 1024 then 64 * 1024 else size, nextHint := 0x01000000 }

/-- The range check shared by `Add` and `Remove`. -/
def rejects (a : AddressSpace) (start size : U32) : Prop :=
  size = 0 ∨ start > a.max ∨ size > a.max - start

instance (a : AddressSpace) (start size : U32) : Decidable (a.rejects start size) :=
  inferInstanceAs (Decidable (_ ∨ _ ∨ _))

/-- The overlap test of `Add` and `isFree`: `start < m.End && end > m.Start`. -/
def overlaps (start stop : U32) (m : Mapping) : Bool :=
  start < m.endAddr && stop > m.start

def add (a : AddressSpace) (start size : U32) (prot : U8) (name : String) :
    Except SpaceError AddressSpace :=
  if a.rejects start size then .error (.invalidMapping start size)
  else
    match a.mappings.find? (overlaps start (start + size)) with
    | some m => .error (.mappingOverlaps m.start m.endAddr)
    | none =>
      .ok { a with
        mappings := List.insertionSort (fun m n => m.start ≤ n.start)
          (a.mappings ++ [⟨start, start + size, prot, name⟩]) }

/-- What one mapping leaves behind when `[start, stop)` is unmapped: itself, or
the pieces on either side. -/
def unmapPieces (start stop : U32) (m : Mapping) : List Mapping :=
  if stop ≤ m.start ∨ start ≥ m.endAddr then [m]
  else
    (if start > m.start then [{ m with endAddr := start }] else []) ++
    (if stop < m.endAddr then [{ m with start := stop }] else [])

def remove (a : AddressSpace) (start size : U32) : Except SpaceError AddressSpace :=
  if a.rejects start size then .error (.invalidUnmap start size)
  else .ok { a with mappings := inPlace (unmapPieces start (start + size)) a.mappings [] }

/-- The loop of `Protect`: the first mapping that contains the whole range is
cut into at most three. -/
def protectLoop (start stop : U32) (prot : U8) : List Mapping → Option (List Mapping)
  | [] => none
  | m :: ms =>
    if start ≥ m.start ∧ stop ≤ m.endAddr then
      some ((if start > m.start then [{ m with endAddr := start }] else []) ++
        ({ m with start := start, endAddr := stop, prot := prot } ::
          ((if stop < m.endAddr then [{ m with start := stop }] else []) ++ ms)))
    else (protectLoop start stop prot ms).map (m :: ·)

def protect (a : AddressSpace) (start size : U32) (prot : U8) : Except SpaceError AddressSpace :=
  if size = 0 ∨ start + size < start ∨ start + size > a.max then .error .invalidProtectRange
  else
    match protectLoop start (start + size) prot a.mappings with
    | none => .error .protectRangeNotMapped
    | some parts => .ok { a with mappings := parts }

def isFree (a : AddressSpace) (start stop : U32) : Bool :=
  (a.mappings.find? (overlaps start stop)).isNone

/-- One of the two places `FindHole` tries before it scans: rounded down to a
page, inside the space, and free. -/
def tryCandidate (a : AddressSpace) (size candidate : U32) : Option U32 :=
  let candidate := candidate &&& ~~~0xfff
  if candidate > a.max ∨ size > a.max - candidate then none
  else if a.isFree candidate (candidate + size) then some candidate
  else none

/-- The scan of `FindHole`: the first gap of `size` bytes at or after `cursor`
(`inl`), or the cursor after the last mapping (`inr`). -/
def holeScan (size : U32) : List Mapping → U32 → U32 ⊕ U32
  | [], cursor => .inr cursor
  | m :: ms, cursor =>
    if cursor ≤ m.start ∧ size ≤ m.start - cursor then .inl cursor
    else holeScan size ms (if m.endAddr > cursor then m.endAddr else cursor)

def findHole (a : AddressSpace) (size hint : U32) : Except SpaceError (U32 × AddressSpace) :=
  if size = 0 ∨ size > a.max then .error (.invalidHoleSize size)
  else
    let hint := if hint < 0x1000 then 0x1000 else hint
    match (a.tryCandidate size hint).or (a.tryCandidate size a.nextHint) with
    | some candidate => .ok (candidate, { a with nextHint := candidate + size })
    | none =>
      match holeScan size a.mappings 0x1000 with
      | .inl cursor => .ok (cursor, { a with nextHint := cursor + size })
      | .inr cursor =>
        if size ≤ a.max - cursor then .ok (cursor, { a with nextHint := cursor + size })
        else .error (.noGuestMappingHole size)

def mappingAt (a : AddressSpace) (addr : U32) : Option Mapping :=
  a.mappings.find? (fun m => m.Covers addr)

/-- What an address sees of the table: the permissions and the name it is mapped
with. -/
def seen (a : AddressSpace) (addr : U32) : Option (U8 × String) :=
  (a.mappingAt addr).map (fun m => (m.prot, m.name))

/-- The cursor loop of `checkRange`.  The cursor moves by at least one byte in
every turn, so the width of the range is fuel enough. -/
def checkLoop (a : AddressSpace) (stop : U32) (prot : U8) : Nat → U32 → Except SpaceError Unit
  | 0, _ => .ok ()
  | fuel + 1, cursor =>
    if cursor < stop then
      match a.mappingAt cursor with
      | none => .error (.unmappedAccess cursor (stop - cursor))
      | some m =>
        if m.prot &&& prot ≠ prot then
          .error (.protectionFault cursor (stop - cursor) m.prot prot)
        else if m.endAddr ≤ cursor then .error (.invalidMappingAt cursor)
        else checkLoop a stop prot fuel (if m.endAddr < stop then m.endAddr else stop)
    else .ok ()

def checkRange (a : AddressSpace) (addr width : U32) (prot : U8) : Except SpaceError Unit :=
  if width = 0 then .ok ()
  else if addr > a.max ∨ width > a.max - addr then .error (.memoryFault addr width)
  else a.checkLoop (addr + width) prot width.toNat addr

/-- The end of `MapAnonymous`: `Add` at the address that was chosen. -/
def mapAt (a : AddressSpace) (addr size : U32) (prot : U8) (name : String) :
    Except SpaceError U32 × AddressSpace :=
  match a.add addr size prot name with
  | .error e => (.error e, a)
  | .ok a' => (.ok addr, a')

def mapAnonymous (a : AddressSpace) (addr size : U32) (prot : U8) (name : String) :
    Except SpaceError U32 × AddressSpace :=
  if addr = 0 then
    match a.findHole size a.nextHint with
    | .error e => (.error e, a)
    | .ok (hole, a') => a'.mapAt hole size prot name
  else if addr > a.max ∨ size > a.max - addr ∨ addr + size < addr then
    (.error .requestedMappingOutside, a)
  else if a.isFree addr (addr + size) = false then (.error .requestedMappingOverlaps, a)
  else a.mapAt addr size prot name

end AddressSpace

end IshGo.I386
