import TokenDispatch.Binary

/-!
Decimal text of floating-point numbers: the fewest digits that read back to the same word, the
nearest of those, and of two equally near the larger. The text is always positional.
-/

namespace TokenDispatch

/-- The number `digits * 10 ^ exponent`. -/
structure Decimal where
  digits : Nat
  exponent : Int
deriving DecidableEq

namespace Decimal

/-- Compares `a * 10 ^ i` with `b * 2 ^ j`. -/
def compareScaled (a : Nat) (i : Int) (b : Nat) (j : Int) : Ordering :=
  compare (a * Nat.pow 10 i.toNat * Nat.pow 2 (-j).toNat)
    (b * Nat.pow 2 j.toNat * Nat.pow 10 (-i).toNat)

/-- Whether a decimal lies among the numbers that round to `m * 2 ^ q`. The ends of that interval
belong to it exactly when `m` is even; below a power of two the interval is half as wide. -/
def readsBack (format : Binary.Format) (m : Nat) (q : Int) (d : Decimal) : Bool :=
  let narrow := m == Nat.pow 2 format.fractionBits && format.leastExponent < q
  let low := 4 * m - if narrow then 1 else 2
  let fromLow := compareScaled d.digits d.exponent low (q - 2)
  let fromHigh := compareScaled d.digits d.exponent (4 * m + 2) (q - 2)
  let closed := m % 2 == 0
  (fromLow == .gt || closed && fromLow == .eq) && (fromHigh == .lt || closed && fromHigh == .eq)

/-- The number of decimal places before the point, for a number from `1` up; the fuel is the number
of places that are tried. -/
def placesBefore (whole : Nat) : Nat → Nat
  | 0 => 0
  | fuel + 1 => if whole = 0 then 0 else placesBefore (whole / 10) fuel + 1

/-- The number of zeros that follow the point, for `num / den` below `1`. -/
def zerosAfter (num den : Nat) : Nat → Nat
  | 0 => 0
  | fuel + 1 => if den ≤ 10 * num then 0 else zerosAfter (10 * num) den fuel + 1

/-- The exponent `k` for which `10 ^ (k - 1) ≤ m * 2 ^ q < 10 ^ k`. -/
def scale (m : Nat) (q : Int) : Int :=
  let num := m * Nat.pow 2 q.toNat
  let den := Nat.pow 2 (-q).toNat
  if den ≤ num then placesBefore (num / den) (Nat.log2 num + 1)
  else -(zerosAfter num den (Nat.log2 den + 1) : Int)

/-- The two neighbours of `m * 2 ^ q` among the multiples of `10 ^ exponent`. -/
def neighbours (m : Nat) (q exponent : Int) : Decimal × Decimal :=
  let num := m * Nat.pow 2 q.toNat * Nat.pow 10 (-exponent).toNat
  let den := Nat.pow 2 (-q).toNat * Nat.pow 10 exponent.toNat
  let floor := num / den
  (⟨floor, exponent⟩, ⟨floor + 1, exponent⟩)

/-- The neighbour on one decimal grid that reads back, if one does. -/
def onGrid? (format : Binary.Format) (m : Nat) (q exponent : Int) : Option Decimal :=
  let (below, above) := neighbours m q exponent
  match readsBack format m q below, readsBack format m q above with
  | true, true =>
      -- the sum of the two neighbours is compared with twice the number
      match compareScaled (below.digits + above.digits) exponent m (q + 1) with
      | .gt => some below
      | _ => some above
  | true, false => some below
  | false, true => some above
  | false, false => none

/-- Drops the zeros at the end of the digits. -/
def trim (digits : Nat) (exponent : Int) : Nat → Decimal
  | 0 => ⟨digits, exponent⟩
  | fuel + 1 =>
      if digits % 10 = 0 then trim (digits / 10) (exponent + 1) fuel else ⟨digits, exponent⟩

/-- The shortest decimal that reads back to a number other than zero. Seventeen digits tell any two
words of either format apart. -/
def shortest (format : Binary.Format) (m : Nat) (q : Int) : Decimal :=
  let top := scale m q
  let found := (List.range 17).findSome? fun (n : Nat) => onGrid? format m q (top - (n + 1))
  match found with
  | some d => trim d.digits d.exponent d.digits.log2
  | none => (neighbours m q (top - 17)).1

def text (d : Decimal) : String :=
  let digits := Nat.toDigits 10 d.digits
  if 0 ≤ d.exponent then
    String.ofList (digits ++ List.replicate d.exponent.toNat '0')
  else
    let places := (-d.exponent).toNat
    let padded := List.replicate (places + 1 - digits.length) '0' ++ digits
    let before := padded.length - places
    String.ofList (padded.take before ++ '.' :: padded.drop before)

end Decimal

namespace Binary.Datum

def text (format : Format) : Datum → String
  | nan => "NaN"
  | infinite negative => if negative then "-inf" else "inf"
  | finite negative m q =>
      let size := if m = 0 then "0" else (Decimal.shortest format m q).text
      if negative then "-" ++ size else size

end Binary.Datum

def Binary32.text (x : Binary32) : String := x.datum.text .single

def Binary64.text (x : Binary64) : String := x.datum.text .double

end TokenDispatch
