/-!
Floating-point numbers as the words that hold them. A word is decoded to an exact integer times a
power of two; every conversion works on that number and rounds once, to nearest with ties to even.
No machine arithmetic is involved, so each conversion is a function on integers.
-/

namespace TokenDispatch.Binary

/-- A binary interchange format: one sign bit, then the exponent field, then the fraction field. -/
structure Format where
  exponentBits : Nat
  fractionBits : Nat

namespace Format

def single : Format := ⟨8, 23⟩

def double : Format := ⟨11, 52⟩

/-- The exponent of the unit in the last place of the smallest numbers. -/
def leastExponent (f : Format) : Int := 2 - Nat.pow 2 (f.exponentBits - 1) - f.fractionBits

end Format

/-- What a word stands for; a finite number is plus or minus `m * 2 ^ q`. -/
inductive Datum where
  | nan
  | infinite (negative : Bool)
  | finite (negative : Bool) (m : Nat) (q : Int)
deriving DecidableEq

/-- The quotient of `m` by `2 ^ shift`, rounded to nearest, an exact half to the even neighbour. -/
def roundShift (m shift : Nat) : Nat :=
  let unit := Nat.pow 2 shift
  let floor := m / unit
  let rest := m % unit
  if 2 * rest < unit then floor
  else if unit < 2 * rest then floor + 1
  else floor + floor % 2

namespace Format

/-- The word of positive infinity: the greatest exponent, and no digits. -/
def infinity (f : Format) : Nat := (Nat.pow 2 f.exponentBits - 1) * Nat.pow 2 f.fractionBits

def decode (f : Format) (word : Nat) : Datum :=
  let fraction := word % Nat.pow 2 f.fractionBits
  let exponent := word / Nat.pow 2 f.fractionBits % Nat.pow 2 f.exponentBits
  let negative := word / Nat.pow 2 (f.fractionBits + f.exponentBits) % 2 == 1
  if exponent = Nat.pow 2 f.exponentBits - 1 then
    if fraction = 0 then .infinite negative else .nan
  else if exponent = 0 then
    .finite negative fraction f.leastExponent
  else
    .finite negative (Nat.pow 2 f.fractionBits + fraction) (f.leastExponent + exponent - 1)

/-- The word of the number nearest to `m * 2 ^ q`, without its sign; too large a number is infinite.
Adding the exponent field to the rounded digits lets a carry run into the exponent by itself. -/
def magnitude (f : Format) (m : Nat) (q : Int) : Nat :=
  let unit := max f.leastExponent (q + Nat.log2 m - f.fractionBits)
  let digits :=
    if unit ≤ q then m * Nat.pow 2 (q - unit).toNat else roundShift m (unit - q).toNat
  min f.infinity ((unit - f.leastExponent).toNat * Nat.pow 2 f.fractionBits + digits)

def signBit (f : Format) (negative : Bool) : Nat :=
  if negative then Nat.pow 2 (f.fractionBits + f.exponentBits) else 0

def encode (f : Format) : Datum → Nat
  | .nan => f.infinity + Nat.pow 2 (f.fractionBits - 1)
  | .infinite negative => f.signBit negative + f.infinity
  | .finite negative m q => f.signBit negative + if m = 0 then 0 else f.magnitude m q

end Format

namespace Datum

def ofInt (n : Int) : Datum := .finite (n < 0) n.natAbs 0

def isNaN : Datum → Bool
  | nan => true
  | _ => false

def isZero : Datum → Bool
  | finite _ m _ => m == 0
  | _ => false

/-- The whole part, with what lies beyond `low` or `high` brought to that end; no number is `0`. -/
def truncate (low high : Int) : Datum → Int
  | nan => 0
  | infinite negative => if negative then low else high
  | finite negative m q =>
      let whole : Int := if 0 ≤ q then m * Nat.pow 2 q.toNat else m / Nat.pow 2 (-q).toNat
      max low (min high (if negative then -whole else whole))

end Datum

end Binary

structure Binary32 where
  bits : UInt32
deriving DecidableEq

structure Binary64 where
  bits : UInt64
deriving DecidableEq

open Binary

namespace Binary32

def datum (x : Binary32) : Datum := Format.single.decode x.bits.toNat

def ofDatum (d : Datum) : Binary32 := ⟨.ofNat (Format.single.encode d)⟩

def ofInt (n : Int) : Binary32 := ofDatum (.ofInt n)

/-- Equality of numbers: no NaN equals anything, and the two zeros are equal. -/
def numEq (x y : Binary32) : Bool :=
  !x.datum.isNaN && !y.datum.isNaN && (x.bits == y.bits || x.datum.isZero && y.datum.isZero)

end Binary32

namespace Binary64

def datum (x : Binary64) : Datum := Format.double.decode x.bits.toNat

def ofDatum (d : Datum) : Binary64 := ⟨.ofNat (Format.double.encode d)⟩

def ofInt (n : Int) : Binary64 := ofDatum (.ofInt n)

/-- Equality of numbers: no NaN equals anything, and the two zeros are equal. -/
def numEq (x y : Binary64) : Bool :=
  !x.datum.isNaN && !y.datum.isNaN && (x.bits == y.bits || x.datum.isZero && y.datum.isZero)

def toBinary32 (x : Binary64) : Binary32 := .ofDatum x.datum

def toInt32 (x : Binary64) : Int32 :=
  .ofInt (x.datum.truncate Int32.minValue.toInt Int32.maxValue.toInt)

def toInt64 (x : Binary64) : Int64 :=
  .ofInt (x.datum.truncate Int64.minValue.toInt Int64.maxValue.toInt)

end Binary64

def Binary32.toBinary64 (x : Binary32) : Binary64 := .ofDatum x.datum

end TokenDispatch
