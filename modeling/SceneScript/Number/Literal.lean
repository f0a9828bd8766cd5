import SceneScript.Number.Decimal

/-! Numbers as they are typed: an optional sign, then digits with at most one point and an
optional exponent, or one of the names of the values that are not finite. The number denoted is
rounded once. -/

namespace SceneScript

/-- A sign in front, if there is one. -/
def splitSign : List Char → Bool × List Char
  | '+' :: cs => (false, cs)
  | '-' :: cs => (true, cs)
  | cs => (false, cs)

def splitDigits (cs : List Char) : List Char × List Char :=
  (cs.takeWhile Char.isDigit, cs.dropWhile Char.isDigit)

def natOfDigits (ds : List Char) : Nat := Nat.ofDigitChars 10 ds 0

/-- A whole number without a sign, or with a plus, that fits 64 bits. -/
def index? (s : String) : Option Nat :=
  let ds := match s.toList with
    | '+' :: cs => cs
    | cs => cs
  if ds ≠ [] ∧ ds.all Char.isDigit ∧ natOfDigits ds < UInt64.size then some (natOfDigits ds)
  else none

/-- The exponent that follows the digits; none at all counts as zero. -/
def exponent? : List Char → Option Int
  | [] => some 0
  | c :: cs =>
    if c = 'e' ∨ c = 'E' then
      let (negative, ds) := splitSign cs
      if ds ≠ [] ∧ ds.all Char.isDigit then
        some (if negative then -(natOfDigits ds : Int) else natOfDigits ds)
      else none
    else none

/-- Digits, at most one point, and an optional exponent. -/
def Decimal.ofChars? (cs : List Char) : Option Decimal :=
  let (whole, rest) := splitDigits cs
  let (fraction, rest) :=
    match rest with
    | '.' :: rest => splitDigits rest
    | rest => ([], rest)
  if whole = [] ∧ fraction = [] then none
  else (exponent? rest).map fun e => ⟨natOfDigits (whole ++ fraction), e - fraction.length⟩

def Binary64.ofChars? (cs : List Char) : Option Binary64 :=
  let (negative, rest) := splitSign cs
  let name := rest.map Char.toLower
  if name = "inf".toList ∨ name = "infinity".toList then some (.infinite negative)
  else if name = "nan".toList then some (.notANumber negative)
  else (Decimal.ofChars? rest).map (·.toBinary64 negative)

end SceneScript
