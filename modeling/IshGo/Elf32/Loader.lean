/-
# `IshGo.Elf32.Loader` — an ELF file becomes a guest

`LoadWithEnvResolver` of `internal/elf32/loader.go`, in the order of the source:

    openFiles          the file and, if it names one, its interpreter; both are validated
    memorySize         the guest's memory, from the ends of all segments
    loadSegments       a mapping for each segment and its bytes in memory
    add                the mapping "guest stack"
    pushInitialStack   arguments, environment and auxiliary vector
-/
import Mathlib.Algebra.Group.Nat.Defs
import IshGo.I386.Cpu

namespace IshGo.Elf32

open I386

/-! ## Files -/

inductive ProgType where
  | load
  | interp
  | other
  deriving DecidableEq, Repr

structure Prog where
  type : ProgType
  flags : U32
  off : U32
  vaddr : U32
  filesz : U32
  memsz : U32
  deriving DecidableEq, Repr

/-- What is read of a parsed file; `supported` says that it is a little-endian 32-bit file for
the 386. -/
structure File where
  supported : Bool
  entry : U32
  progs : List Prog
  deriving DecidableEq, Repr

inductive LoadError where
  | elf
  | unsupported
  | invalidLoadSegment (vaddr : U32)
  | invalidInterp
  | dynamicLinker (name : List U8)
  | loadInterpreter (name : List U8)
  | interpreterELF
  | interpreter (e : LoadError)
  | noLoadableSegments
  | addressSpaceTooLarge
  | segmentExceeds
  | space (e : SpaceError)
  | random
  | stackExceeds
  deriving DecidableEq, Repr

def pfX : U32 := 1
def pfW : U32 := 2
def pfR : U32 := 4

def defaultMemory : Nat := 128 * 2 ^ 20
def stackReserve : Nat := 8 * 2 ^ 20
def interpreterBase : U32 := 0x10000000
def pageSize : Nat := 4096

def Prog.slice (p : Prog) (data : List U8) : List U8 := (data.drop p.off.toNat).take p.filesz.toNat

/-- What `validateELF` has against a header. -/
def Prog.defect (length : Nat) (p : Prog) : Option LoadError :=
  match p.type with
  | .load =>
    if p.memsz < p.filesz ∨ p.vaddr.toNat + p.memsz.toNat > 2 ^ 32 ∨
        p.off.toNat + p.filesz.toNat > length then
      some (.invalidLoadSegment p.vaddr)
    else none
  | .interp => if p.off.toNat + p.filesz.toNat > length then some .invalidInterp else none
  | .other => none

def validateELF (f : File) (data : List U8) : Except LoadError Unit :=
  if f.supported = false then .error .unsupported
  else
    match f.progs.findSome? (Prog.defect data.length) with
    | some e => .error e
    | none => .ok ()

/-- `interpreterPath`: the bytes of the first `PT_INTERP`, without zeros and newlines at the
end.  Empty if there is none. -/
def interpreterPath (f : File) (data : List U8) : List U8 :=
  match f.progs.find? (fun p => p.type = .interp) with
  | none => []
  | some p => ((p.slice data).reverse.dropWhile fun b => b = 0 ∨ b = 10).reverse

/-- A parsed file with its bytes, the address it is loaded at and the name of its mappings. -/
structure Source where
  file : File
  data : List U8
  base : U32
  label : String

abbrev Parser := List U8 → Option File
abbrev FileResolver := List U8 → Option (List U8)

def openInterpreter (parse : Parser) (resolve : Option FileResolver) (name : List U8) :
    Except LoadError Source :=
  match resolve with
  | none => .error (.dynamicLinker name)
  | some resolve =>
    match resolve name with
    | none => .error (.loadInterpreter name)
    | some data =>
      match parse data with
      | none => .error .interpreterELF
      | some f =>
        match validateELF f data with
        | .error e => .error (.interpreter e)
        | .ok () => .ok ⟨f, data, interpreterBase, "ELF interpreter"⟩

def openFiles (parse : Parser) (resolve : Option FileResolver) (data : List U8) :
    Except LoadError (Source × Option Source) :=
  match parse data with
  | none => .error .elf
  | some f =>
    match validateELF f data with
    | .error e => .error e
    | .ok () =>
      let main : Source := ⟨f, data, 0, "ELF PT_LOAD"⟩
      if interpreterPath f data = [] then .ok (main, none)
      else
        match openInterpreter parse resolve (interpreterPath f data) with
        | .error e => .error e
        | .ok interp => .ok (main, some interp)

/-! ## Segments -/

/-- A `PT_LOAD` header of a file that is loaded at `base`. -/
structure Segment where
  base : U32
  prog : Prog
  bytes : List U8
  label : String

def Source.segments (s : Source) : List Segment :=
  (s.file.progs.filter fun p => p.type = .load).map fun p => ⟨s.base, p, p.slice s.data, s.label⟩

def allSegments (main : Source) (interp : Option Source) : List Segment :=
  main.segments ++ (interp.elim [] Source.segments)

def pageAlignUp (v : U32) : U32 :=
  if v > 0xffffffff - 0xfff then 0xffffffff else (v + 0xfff) &&& ~~~0xfff

namespace Segment

/-- `start64` and `end64`: the addresses of the segment. -/
def start64 (g : Segment) : Nat := g.base.toNat + g.prog.vaddr.toNat

def end64 (g : Segment) : Nat := g.start64 + g.prog.memsz.toNat

/-- `start` and `end`: whole pages. -/
def start (g : Segment) : U32 := BitVec.ofNat 32 g.start64 &&& ~~~0xfff

def stop (g : Segment) : U32 := pageAlignUp (BitVec.ofNat 32 g.end64)

def prot (g : Segment) : U8 :=
  (if g.prog.flags &&& pfR ≠ 0 then protRead else 0) |||
  (if g.prog.flags &&& pfW ≠ 0 then protWrite else 0) |||
  (if g.prog.flags &&& pfX ≠ 0 then protExec else 0)

end Segment

/-- `imageBounds`: the end of the segments and the end of the writable ones, in whole pages.  The
largest end is cut to 32 bits before it is rounded. -/
def imageBounds (s : Source) : Except LoadError (U32 × U32) :=
  let max := s.segments.foldl (fun max g => if g.end64 > max then g.end64 else max) 0
  let brk := s.segments.foldl
    (fun brk g => if g.prog.flags &&& pfW ≠ 0 ∧ g.end64 > brk then g.end64 else brk) 0
  if max = 0 then .error .noLoadableSegments
  else
    .ok (pageAlignUp (BitVec.ofNat 32 max), pageAlignUp (BitVec.ofNat 32 (if brk = 0 then max else brk)))

def interpreterMax (interp : Option Source) : Except LoadError U32 :=
  match interp with
  | none => .ok 0
  | some s => (imageBounds s).map (·.1)

/-- The size of the guest's memory, and the end of the file's data. -/
def memorySize (main : Source) (interp : Option Source) : Except LoadError (U32 × U32) :=
  match imageBounds main with
  | .error e => .error e
  | .ok (mainMax, mainBrk) =>
    match interpreterMax interp with
    | .error e => .error e
    | .ok interpMax =>
      let max := (if interpMax > mainMax then interpMax else mainMax).toNat
      if max = 0 then .error .noLoadableSegments
      else
        let need := max + stackReserve + pageSize
        let size := if need > defaultMemory then need else defaultMemory
        if size > 2 ^ 32 - 1 then .error .addressSpaceTooLarge
        else .ok (BitVec.ofNat 32 size, mainBrk)

/-- The first page of a segment decides whether it gets a mapping. -/
def mapSegment (m : Memory) (g : Segment) : Except SpaceError Memory :=
  match m.space.mappingAt g.start with
  | some _ => .ok m
  | none =>
    match m.space.add g.start (g.stop - g.start) g.prot g.label with
    | .error e => .error e
    | .ok space => .ok { m with space := space }

/-- The body of `loadSegments`. -/
def loadSegment (m : Memory) (g : Segment) : Except LoadError Memory :=
  if g.end64 > 2 ^ 32 then .error .segmentExceeds
  else
    match mapSegment m g with
    | .error e => .error (.space e)
    | .ok m =>
      if g.prog.filesz = 0 then .ok m
      else
        match m.writeBytes (BitVec.ofNat 32 g.start64) g.bytes with
        | .error e => .error (.space e)
        | .ok m => .ok m

def loadSegments (m : Memory) : List Segment → Except LoadError Memory
  | [] => .ok m
  | g :: gs =>
    match loadSegment m g with
    | .error e => .error e
    | .ok m => loadSegments m gs

/-! ## The initial stack -/

def programHeaderAddress (s : Source) : U32 :=
  if s.data.length < 32 then s.base
  else
    let phoff : U32 := leValue 32 ((s.data.drop 28).take 4)
    match s.file.progs.find? (fun p => p.type = .load ∧ p.off ≤ phoff ∧
        phoff.toNat < p.off.toNat + p.filesz.toNat) with
    | some p => s.base + (p.vaddr + (phoff - p.off))
    | none => s.base + phoff

/-- The loop of `pushStrings` goes from the last string to the first, and downwards in memory. -/
def pushStrings (m : Memory) (top : U32) : List (List U8) → Except LoadError (List U32 × Memory)
  | [] => .ok ([], m)
  | value :: values =>
    match pushStrings m top values with
    | .error e => .error e
    | .ok (ptrs, m) =>
      let sp := ptrs.headD top
      let b := value ++ [0]
      if BitVec.ofNat 32 b.length > sp then .error .stackExceeds
      else
        let sp := sp - BitVec.ofNat 32 b.length
        match m.writeBytes sp b with
        | .error e => .error (.space e)
        | .ok m => .ok (sp :: ptrs, m)

def lowest (sp : U32) (ptrs : List U32) : U32 :=
  ptrs.foldl (fun sp ptr => if ptr < sp then ptr else sp) sp

def pushWords (m : Memory) (cursor : U32) : List U32 → Except LoadError Memory
  | [] => .ok m
  | w :: ws =>
    match m.write32 cursor w with
    | .error e => .error (.space e)
    | .ok m => pushWords m (cursor + 4) ws

/-- `"ish-go"` -/
def defaultArg : List U8 := [0x69, 0x73, 0x68, 0x2d, 0x67, 0x6f]

def argvOf (argv : List (List U8)) : List (List U8) := if argv = [] then [defaultArg] else argv

/-- The count, the pointers, and the auxiliary vector with the name of the program in it. -/
def stackWords (argvPtrs envPtrs : List U32) (auxv : List (U32 × U32)) : List U32 :=
  [BitVec.ofNat 32 argvPtrs.length] ++ argvPtrs ++ [0] ++ envPtrs ++ [0] ++
    (auxv.flatMap fun a => [a.1, if a.1 = 31 then argvPtrs.headD a.2 else a.2]) ++ [0, 0]

/-- The stack pointer and the memory.  The addresses of the strings are kept as well; the source
keeps them in the words only. -/
structure InitialStack where
  sp : U32
  mem : Memory
  argvPtrs : List U32
  envPtrs : List U32

def pushInitialStack (m : Memory) (top : U32) (argv envp : List (List U8)) (auxv : List (U32 × U32)) :
    Except LoadError InitialStack :=
  match pushStrings m top (argvOf argv) with
  | .error e => .error e
  | .ok (argvPtrs, m) =>
    let sp := lowest top argvPtrs
    match pushStrings m sp envp with
    | .error e => .error e
    | .ok (envPtrs, m) =>
      let sp := lowest sp envPtrs &&& ~~~15
      let words := 1 + argvPtrs.length + 1 + envPtrs.length + 1 + 2 * (auxv.length + 1)
      let sp := sp - BitVec.ofNat 32 (words * 4)
      match pushWords m sp (stackWords argvPtrs envPtrs auxv) with
      | .error e => .error e
      | .ok m => .ok ⟨sp, m, argvPtrs, envPtrs⟩

/-! ## The image -/

/-- `Image`, with the address space in the memory; `stack.sp` is the source's `Stack`. -/
structure Image where
  mem : Memory
  cpu : CPU
  entry : U32
  start : U32
  interpreter : List U8
  interpreterEntry : U32
  stack : InitialStack
  brk : U32
  env : List (List U8)

def addStack (m : Memory) : Except LoadError Memory :=
  match m.space.add (m.size - BitVec.ofNat 32 stackReserve) (BitVec.ofNat 32 (stackReserve - pageSize))
      (protRead ||| protWrite) "guest stack" with
  | .error e => .error (.space e)
  | .ok space => .ok { m with space := space }

def stackTop (m : Memory) : U32 := (m.size - BitVec.ofNat 32 pageSize) &&& ~~~15

def auxv (main : Source) (interp : Option Source) (randomAddr : U32) : List (U32 × U32) :=
  [(3, programHeaderAddress main), (4, 32), (5, BitVec.ofNat 32 main.file.progs.length),
    (6, BitVec.ofNat 32 pageSize), (9, main.base + main.file.entry), (11, 0), (12, 0), (13, 0), (14, 0),
    (25, randomAddr), (31, 0)] ++ (if interp.isSome then [(7, interpreterBase)] else [])

/-- The part of the stack that does not depend on the arguments, and then the rest of it. -/
def buildStack (m : Memory) (main : Source) (interp : Option Source) (random : Option (Vector U8 16))
    (argv envp : List (List U8)) : Except LoadError InitialStack :=
  match random with
  | none => .error .random
  | some bytes =>
    let top := stackTop m
    let randomAddr := top - 16
    match m.writeBytes randomAddr bytes.toList with
    | .error e => .error (.space e)
    | .ok m => pushInitialStack m top argv envp (auxv main interp randomAddr)

def placeImage (size : U32) (segments : List Segment) : Except LoadError Memory :=
  match loadSegments (Memory.ofNewAddressSpace size) segments with
  | .error e => .error e
  | .ok m => addStack m

def makeImage (main : Source) (interp : Option Source) (brk : U32) (envp : List (List U8))
    (stack : InitialStack) : Image :=
  let mainEntry := main.base + main.file.entry
  let interpEntry := interp.elim 0 fun s => s.base + s.file.entry
  let start := if interp.isSome then interpEntry else mainEntry
  let cpu := CPU.new
  { mem := stack.mem.enableProtection
    cpu := { cpu with eip := start, regs := Function.update cpu.regs ESP stack.sp }
    entry := mainEntry
    start := start
    interpreter := interpreterPath main.file main.data
    interpreterEntry := interpEntry
    stack := stack
    brk := brk
    env := envp }

def loadWithEnvResolver (parse : Parser) (resolve : Option FileResolver) (random : Option (Vector U8 16))
    (data : List U8) (argv envp : List (List U8)) : Except LoadError Image :=
  match openFiles parse resolve data with
  | .error e => .error e
  | .ok (main, interp) =>
    match memorySize main interp with
    | .error e => .error e
    | .ok (size, brk) =>
      match placeImage size (allSegments main interp) with
      | .error e => .error e
      | .ok m =>
        match buildStack m main interp random argv envp with
        | .error e => .error e
        | .ok stack => .ok (makeImage main interp brk envp stack)

end IshGo.Elf32
