/-
# `IshGo.Kernel.MemoryOps` — `munmap` and `mprotect`

`internal/kernel/syscalls/memory`: the page rounding of a length, the guest's
protection bits, and the two syscalls that are a range check around a call of the
mapping table.  A syscall returns the `int32` that ends up in `EAX`; negative
numbers are error codes.
-/
import IshGo.I386.WellFormed

namespace IshGo.Kernel

open I386

/-- `-EINVAL` -/
def einval : U32 := -22

/-- `PageLength`: rounded up to whole pages, where that can be done. -/
def pageLength (length : U32) : Option U32 :=
  if length = 0 ∨ length > 0xffffffff - 4094 then none
  else some ((length + 4095) &&& ~~~4095)

/-- `Prot`: the three permission bits of the guest's flags. -/
def prot (flags : U32) : U8 :=
  (if flags &&& 1 ≠ 0 then protRead else 0) |||
  (if flags &&& 2 ≠ 0 then protWrite else 0) |||
  (if flags &&& 4 ≠ 0 then protExec else 0)

def munmap (space : AddressSpace) (addr length : U32) : U32 × AddressSpace :=
  match pageLength length with
  | none => (einval, space)
  | some size =>
    if addr &&& 0xfff ≠ 0 then (einval, space)
    else
      match space.remove addr size with
      | .error _ => (einval, space)
      | .ok space' => (0, space')

def mprotect (space : AddressSpace) (addr length flags : U32) : U32 × AddressSpace :=
  match pageLength length with
  | none => (einval, space)
  | some size =>
    if addr &&& 0xfff ≠ 0 then (einval, space)
    else
      match space.protect addr size (prot flags) with
      | .error _ => (einval, space)
      | .ok space' => (0, space')

end IshGo.Kernel
