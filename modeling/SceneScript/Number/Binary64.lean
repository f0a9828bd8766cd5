/-! Binary floating point of 64 bits. A value is a sign and a magnitude, where the magnitude is
the rank of the absolute value: 0 is zero, 1 the least positive value, `infinity` the first rank
that is not finite, and what lies above is not a number. Every result is the exact one, rounded
once by `nearest`. -/

namespace SceneScript

/-- How many values lie between one power of two and the next. -/
def binade : Nat := Nat.pow 2 52

structure Binary64 where
  negative : Bool
  magnitude : Nat
  bounded : magnitude < 2048 * binade
deriving DecidableEq

namespace Binary64

/-- The rank of infinity. -/
def infinity : Nat := 2047 * binade

/-- One, counted in units of `2 ^ (-1074)`, the least positive value. -/
def unit : Nat := Nat.pow 2 1074

/-- The absolute value of a rank, counted in units of `2 ^ (-1074)`. -/
def units (magnitude : Nat) : Nat :=
  if magnitude < binade then magnitude
  else (binade + magnitude % binade) * Nat.pow 2 (magnitude / binade - 1)

/-- The quotient rounded to the nearest natural, a half to the even one. -/
def roundDiv (num den : Nat) : Nat :=
  let q := num / den
  let r := num % den
  if 2 * r < den then q else if den < 2 * r then q + 1 else q + q % 2

/-- The rank nearest to `num / den` units: 53 significant bits, or fewer near zero. -/
def nearest (num den : Nat) : Nat :=
  let scale := (num / den).log2 - 52
  min infinity (scale * binade + roundDiv num (den * Nat.pow 2 scale))

theorem infinity_lt : infinity < 2048 * binade := by decide

theorem nearest_le (num den : Nat) : nearest num den ≤ infinity := Nat.min_le_left ..

theorem nearest_lt (num den : Nat) : nearest num den < 2048 * binade :=
  Nat.lt_of_le_of_lt (nearest_le num den) infinity_lt

/-- The value nearest to `num / den` units, with the given sign. -/
def ofUnits (negative : Bool) (num den : Nat) : Binary64 :=
  ⟨negative, nearest num den, nearest_lt num den⟩

def ofNat (n : Nat) : Binary64 := ofUnits false (n * unit) 1

def ofInt (i : Int) : Binary64 := ofUnits (decide (i < 0)) (i.natAbs * unit) 1

def zero (negative : Bool) : Binary64 := ⟨negative, 0, by decide⟩

def infinite (negative : Bool) : Binary64 := ⟨negative, infinity, infinity_lt⟩

/-- The quiet value that is not a number. -/
def notANumber (negative : Bool) : Binary64 := ⟨negative, infinity + binade / 2, by decide⟩

def isFinite (x : Binary64) : Bool := x.magnitude < infinity

def isNaN (x : Binary64) : Bool := infinity < x.magnitude

def withSign (x : Binary64) (negative : Bool) : Binary64 := { x with negative }

/-- Product of the absolute values of two finite values. -/
def scaleUp (x y : Binary64) : Binary64 :=
  ofUnits false (units x.magnitude * units y.magnitude) unit

/-- Quotient of the absolute values of two finite values, the second not zero. -/
def scaleDown (x y : Binary64) : Binary64 :=
  ofUnits false (units x.magnitude * unit) (units y.magnitude)

/-- Numeric equality: the two zeros are equal, and what is not a number equals nothing. -/
def agrees (x y : Binary64) : Bool :=
  !x.isNaN && !y.isNaN && (x == y || (x.magnitude == 0 && y.magnitude == 0))

end Binary64

end SceneScript
