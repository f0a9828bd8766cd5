import SceneScript.Number.Binary64

/-! Decimal numbers: the shortest one that identifies a binary value, its two layouts, and the
way back from decimal text. The rank `m` stands for the absolute values between halfway to
`m - 1` and halfway to `m + 1`, both ends included exactly when `m` is even; a decimal among them
reads back to `m`. All comparisons are of naturals in units of `10 ^ (-1075)`. -/

namespace SceneScript

/-- The number `digits * 10 ^ exponent`. -/
structure Decimal where
  digits : Nat
  exponent : Int
deriving DecidableEq, Repr

/-- Which of two equally close decimals of the same length is taken. -/
inductive Tie
  | even
  | up
deriving DecidableEq, Repr

namespace Decimal

/-- Half a unit of `Binary64.units`, counted in units of `10 ^ (-1075)`. -/
def halfUnit : Nat := Nat.pow 5 1075

structure Interval where
  lower : Nat
  exact : Nat
  upper : Nat
  closed : Bool

def Interval.ofMagnitude (m : Nat) : Interval where
  lower := (Binary64.units (m - 1) + Binary64.units m) * halfUnit
  exact := 2 * Binary64.units m * halfUnit
  upper := (Binary64.units m + Binary64.units (m + 1)) * halfUnit
  closed := m % 2 == 0

def Interval.contains (i : Interval) (x : Nat) : Bool :=
  if i.closed then i.lower ≤ x && x ≤ i.upper else i.lower < x && x < i.upper

/-- The closest point of the grid of step `10 ^ j` in the interval, if its two neighbours of the
exact value are not both outside. -/
def Interval.onGrid? (i : Interval) (tie : Tie) (j : Nat) : Option Nat :=
  let step := Nat.pow 10 j
  let below := i.exact / step
  match i.contains (below * step), i.contains ((below + 1) * step) with
  | true, true =>
    match compare (2 * i.exact) ((2 * below + 1) * step), tie with
    | .lt, _ => some below
    | .gt, _ => some (below + 1)
    | .eq, .up => some (below + 1)
    | .eq, .even => some (below + below % 2)
  | true, false => some below
  | false, true => some (below + 1)
  | false, false => none

/-- The first hit from the grid of step `10 ^ j` down to the finest, on which the exact value
lies. -/
def Interval.coarsest (i : Interval) (tie : Tie) : Nat → Nat × Nat
  | 0 => (i.exact, 0)
  | j + 1 =>
    match i.onGrid? tie (j + 1) with
    | some digits => (digits, j + 1)
    | none => i.coarsest tie j

/-- The decimal of fewest digits that reads back to the magnitude, the closest of those. -/
def shortest (tie : Tie) (magnitude : Nat) : Decimal :=
  if magnitude = 0 then ⟨0, 0⟩
  else
    let i := Interval.ofMagnitude magnitude
    let (digits, j) := i.coarsest tie (i.upper.log2 * 30103 / 100000 + 1)
    ⟨digits, j - 1075⟩

/-- The position of the decimal point, counted from the first digit. -/
def point (d : Decimal) : Int := (Nat.toDigits 10 d.digits).length + d.exponent

def zeros (n : Nat) : List Char := List.replicate n '0'

/-- Without an exponent; `whole` follows a number without a fraction. -/
def positional (whole : List Char) (d : Decimal) : List Char :=
  let ds := Nat.toDigits 10 d.digits
  if d.point ≤ 0 then '0' :: '.' :: zeros (-d.point).toNat ++ ds
  else if (ds.length : Int) ≤ d.point then ds ++ zeros (d.point.toNat - ds.length) ++ whole
  else ds.take d.point.toNat ++ '.' :: ds.drop d.point.toNat

/-- One digit before the point, and an exponent with its sign. -/
def scientific (d : Decimal) : List Char :=
  let e := d.point - 1
  let power := (if e < 0 then '-' else '+') :: Nat.toDigits 10 e.natAbs
  match Nat.toDigits 10 d.digits with
  | [] => 'e' :: power
  | [c] => c :: 'e' :: power
  | c :: ds => c :: '.' :: ds ++ 'e' :: power

/-- The value nearest to a decimal. The two guards decide numbers far outside the range, where
the exact powers would be large and the answer is known. -/
def toBinary64 (negative : Bool) (d : Decimal) : Binary64 :=
  if d.digits = 0 then .zero negative
  else if 310 ≤ d.exponent then .infinite negative
  else if (d.digits.log2 + 1101 : Int) < 3 * -d.exponent then .zero negative
  else .ofUnits negative (d.digits * Nat.pow 10 d.exponent.toNat * Binary64.unit)
    (Nat.pow 10 (-d.exponent).toNat)

end Decimal

namespace Binary64

def signed (negative : Bool) (text : List Char) : List Char :=
  if negative then '-' :: text else text

/-- The plain text of a value: no exponent, and nothing after a whole number. -/
def plainText (x : Binary64) : String :=
  .ofList <|
    if x.isNaN then "NaN".toList
    else signed x.negative <|
      if x.isFinite then (Decimal.shortest .up x.magnitude).positional [] else "inf".toList

/-- The text of a finite value in a document: positional from `0.00001` below ten to the
sixteenth, with `.0` after a whole number, and with an exponent elsewhere. -/
def documentText (x : Binary64) : String :=
  let d := Decimal.shortest .even x.magnitude
  .ofList <| signed x.negative <|
    if -4 ≤ d.point ∧ d.point ≤ 16 then d.positional ['.', '0'] else d.scientific

end Binary64

end SceneScript
