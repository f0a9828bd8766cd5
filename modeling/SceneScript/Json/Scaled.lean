import SceneScript.Json.Source

/-! Numbers in a document. The digits form a significand that fits 64 bits, later digits only
moving the exponent; a number with a point, an exponent or too many digits is the significand
scaled by powers of ten, each step rounded. -/

namespace SceneScript

def maxSignificand : Nat := UInt64.size - 1

def maxExponent : Nat := 2147483647

/-- A significand and the power of ten it is to be scaled by. -/
structure Scaled where
  significand : Nat
  exponent : Int

namespace Scaled

def powerOfTen (n : Nat) : Binary64 := (Decimal.mk 1 n).toBinary64 false

/-- Divides by `10 ^ 308`, `n` times or until nothing is left. -/
def shrink : Nat → Binary64 → Binary64
  | 0, x => x
  | n + 1, x => if x.magnitude = 0 then x else shrink n (x.scaleDown (powerOfTen 308))

/-- The absolute value; too large a number has none. -/
def toBinary64? (s : Scaled) : Option Binary64 :=
  let x := Binary64.ofNat s.significand
  if 0 ≤ s.exponent then
    if s.exponent ≤ 308 then
      let y := x.scaleUp (powerOfTen s.exponent.toNat)
      if y.isFinite then some y else none
    else if x.magnitude = 0 then some x else none
  else
    let n := (-s.exponent).toNat
    let steps := (n - 1) / 308
    let y := shrink steps x
    if y.magnitude = 0 then some y else some (y.scaleDown (powerOfTen (n - 308 * steps)))

def toReal (negative : Bool) (s : Scaled) : Except Fault Numeral :=
  match s.toBinary64? with
  | some x => .ok (.real (x.withSign negative))
  | none => .error .numberOutOfRange

/-- Takes digits into the significand while it fits, counting them. -/
def digits : Source → Nat → Nat → Nat × Nat × Source
  | [], significand, count => (significand, count, [])
  | s :: rest, significand, count =>
    match s.digit? with
    | some d =>
      if significand * 10 + d ≤ maxSignificand then
        digits rest (significand * 10 + d) (count + 1)
      else (significand, count, s :: rest)
    | none => (significand, count, s :: rest)

def dropDigits (src : Source) : Source := src.dropWhile (·.digit?.isSome)

/-- How many digits stand in front. -/
def countDigits (src : Source) : Nat := (src.takeWhile (·.digit?.isSome)).length

/-- The digits of an exponent, as long as they fit; `none` when they do not. -/
def exponentDigits : Source → Nat → Option Nat × Source
  | [], e => (some e, [])
  | s :: rest, e =>
    match s.digit? with
    | some d =>
      if e * 10 + d ≤ maxExponent then exponentDigits rest (e * 10 + d)
      else (none, dropDigits rest)
    | none => (some e, s :: rest)

/-- Kept between the least and the greatest exponent. -/
def clamp (e : Int) : Int := max (-maxExponent - 1) (min maxExponent e)

/-- What follows the letter of an exponent. -/
def readExponent (negative : Bool) (s : Scaled) (src : Source) : Except Fault (Read Numeral) :=
  let (below, src) :=
    match src with
    | .char '+' :: rest => (false, rest)
    | .char '-' :: rest => (true, rest)
    | src => (false, src)
  match src with
  | [] => .error (.eof .value)
  | d :: _ =>
    if d.digit?.isNone then .error .invalidNumber
    else
      match exponentDigits src 0 with
      | (some e, rest) => do
        let e : Int := if below then -e else e
        let n ← toReal negative ⟨s.significand, clamp (s.exponent + e)⟩
        .ok (n, rest)
      | (none, rest) =>
        if s.significand ≠ 0 ∧ !below then .error .numberOutOfRange
        else .ok (.real (.zero negative), rest)

/-- The end of a number, or its exponent. -/
def readEnd (negative : Bool) (s : Scaled) : Source → Except Fault (Read Numeral)
  | .char c :: rest =>
    if c = 'e' ∨ c = 'E' then readExponent negative s rest
    else do .ok (← toReal negative s, .char c :: rest)
  | src => do .ok (← toReal negative s, src)

/-- What follows the point: at least one digit. -/
def readFraction (negative : Bool) (s : Scaled) (src : Source) : Except Fault (Read Numeral) :=
  match src with
  | [] => .error (.eof .value)
  | d :: _ =>
    if d.digit?.isNone then .error .invalidNumber
    else
      let (significand, count, rest) := digits src s.significand 0
      readEnd negative ⟨significand, s.exponent - count⟩ (dropDigits rest)

/-- The integer a significand stands for, where 64 bits hold it; a negative zero is not one. -/
def toInteger (negative : Bool) (significand : Nat) : Numeral :=
  if !negative then .integer significand
  else if significand = 0 ∨ UInt64.size / 2 < significand then
    .real ((Binary64.ofNat significand).withSign true)
  else .integer (-significand)

/-- A number without its sign. -/
def readUnsigned (negative : Bool) (src : Source) : Except Fault (Read Numeral) :=
  match src with
  | [] => .error (.eof .value)
  | d :: rest =>
    if d.digit?.isNone then .error .invalidNumber
    else if d = .char '0' ∧ countDigits rest ≠ 0 then .error .invalidNumber
    else
      let (significand, _, rest) := digits src 0 0
      let dropped := countDigits rest
      let scaled : Scaled := ⟨significand, dropped⟩
      match dropDigits rest with
      | .char '.' :: rest => readFraction negative scaled rest
      | rest =>
        if dropped ≠ 0 then readEnd negative scaled rest
        else
          match rest with
          | .char c :: rest' =>
            if c = 'e' ∨ c = 'E' then readExponent negative scaled rest'
            else .ok (toInteger negative significand, rest)
          | _ => .ok (toInteger negative significand, rest)

/-- Reads a number whose first symbol is a minus or a digit. -/
def read : Source → Except Fault (Read Numeral)
  | .char '-' :: rest => readUnsigned true rest
  | src => readUnsigned false src

end Scaled

end SceneScript
