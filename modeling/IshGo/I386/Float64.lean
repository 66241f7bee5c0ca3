/-
# `IshGo.I386.Float64` — the floating-point operations of the x87 subset

A register of the x87 stack is a Go `float64`; here it is its 64-bit pattern, so
that loading and storing are exact whatever the pattern means.  `+`, `-`, `*` and
the square root are those of Lean's `Float` (IEEE 754 binary64, one quiet NaN).
What `Float` has no operation for, `math.Mod`, the roundings to an integer and
the conversions, is done on the integers `(-1)^s · m · 2^e`.
-/
import IshGo.I386.AddressSpace
import Mathlib.Algebra.Group.Int.Defs
import Mathlib.Algebra.Group.Nat.Defs

namespace IshGo.I386.Float64

def toFloat (x : U64) : Float := Float.ofBits ⟨x⟩
def ofFloat (x : Float) : U64 := x.toBits.toBitVec

def add (x y : U64) : U64 := ofFloat (toFloat x + toFloat y)
def sub (x y : U64) : U64 := ofFloat (toFloat x - toFloat y)
def mul (x y : U64) : U64 := ofFloat (toFloat x * toFloat y)
def sqrt (x : U64) : U64 := ofFloat (toFloat x).sqrt

def signMask : U64 := 1 <<< 63
/-- `math.NaN()` -/
def nan : U64 := 0x7ff8000000000001
/-- `math.Inf(1)` -/
def inf : U64 := 0x7ff0000000000000
def one : U64 := 0x3ff0000000000000

def abs (x : U64) : U64 := x &&& ~~~signMask
def signbit (x : U64) : Bool := x &&& signMask ≠ 0
def isNaN (x : U64) : Bool := abs x > inf
def isInf (x : U64) : Bool := abs x = inf
def isZero (x : U64) : Bool := abs x = 0
def lt (x y : U64) : Bool := toFloat x < toFloat y
def eq (x y : U64) : Bool := toFloat x == toFloat y

/-- The magnitude of a finite number as `m · 2^e`. -/
def decode (x : U64) : Nat × Int :=
  let exponent := ((abs x) >>> 52).toNat
  let fraction := (x &&& 0xfffffffffffff).toNat
  if exponent = 0 then (fraction, -1074) else (fraction + 2 ^ 52, (exponent : Int) - 1075)

/-- `m / 2^d`, to the nearest, ties to even. -/
def divPow2 (m d : Nat) : Nat :=
  let q := m / 2 ^ d
  let twice := 2 * (m % 2 ^ d)
  if twice > 2 ^ d ∨ (twice = 2 ^ d ∧ q % 2 = 1) then q + 1 else q

/-- The non-negative number nearest to `m · 2^e`, ties to even. -/
def encode (m : Nat) (e : Int) : U64 :=
  if m = 0 then 0
  else
    let q : Int := max (e + (m.log2 + 1 : Nat) - 53) (-1074)
    let m' := if q ≤ e then m * 2 ^ (e - q).toNat else divPow2 m (q - e).toNat
    -- a mantissa of 2^53 or a biased exponent of 2047 carries into the next field
    if m' < 2 ^ 52 then BitVec.ofNat 64 m'
    else
      let bits := (q + 1074).toNat * 2 ^ 52 + m'
      if bits ≥ inf.toNat then inf else BitVec.ofNat 64 bits

/-- A magnitude with a sign. -/
def withSign (negative : Bool) (x : U64) : U64 := if negative then x ||| signMask else x

/-- `float64(v)` for a signed integer. -/
def ofInt (v : Int) : U64 := withSign (v < 0) (encode v.natAbs 0)

/-- `float64(math.Float32frombits(bits))` -/
def ofFloat32 (bits : U32) : U64 :=
  let negative : Bool := bits &&& 0x80000000 ≠ 0
  let exponent := ((bits &&& 0x7fffffff) >>> 23).toNat
  let fraction := (bits &&& 0x7fffff).toNat
  withSign negative <|
    if exponent = 255 then
      if fraction = 0 then inf
      else inf ||| (1 <<< 51) ||| ((bits &&& 0x7fffff).setWidth 64 <<< 29)
    else if exponent = 0 then encode fraction (-149)
    else encode (fraction + 2 ^ 23) ((exponent : Int) - 150)

/-- `math.Mod`: the exact remainder, with the sign of `x`. -/
def mod (x y : U64) : U64 :=
  if isZero y ∨ isInf x ∨ isNaN x ∨ isNaN y then nan
  else if isInf y then x
  else
    let (mx, ex) := decode x
    let (my, ey) := decode y
    let e := min ex ey
    withSign (signbit x) (encode (mx * 2 ^ (ex - e).toNat % (my * 2 ^ (ey - e).toNat)) e)

/-- The integer a finite number rounds to in one of the four x87 modes. -/
def roundMode (mode : U16) (x : U64) : Int :=
  let (m, e) := decode x
  let negative := signbit x
  let magnitude : Int :=
    if 0 ≤ e then (m * 2 ^ e.toNat : Nat)
    else
      let d := (-e).toNat
      let down := m / 2 ^ d
      let up := if m % 2 ^ d = 0 then down else down + 1
      match mode.toNat with
      | 1 => ((if negative then up else down) : Nat)
      | 2 => ((if negative then down else up) : Nat)
      | 3 => (down : Nat)
      | _ => (divPow2 m d : Nat)
  if negative then -magnitude else magnitude

/-- `int64(…)` of a rounded number. -/
def toInt64 (mode : U16) (x : U64) : U64 :=
  if isNaN x ∨ isInf x then 1 <<< 63
  else
    let n := roundMode mode x
    if n < -2 ^ 63 ∨ 2 ^ 63 ≤ n then 1 <<< 63 else BitVec.ofInt 64 n

end IshGo.I386.Float64
