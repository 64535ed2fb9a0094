/-! # Spans of time

A span of time is written in seconds with two decimals, as the number with 53 significant binary
digits that is nearest to it. Fractions are rounded to the nearest whole number, to the nearest
number with so many binary digits, or to the nearest number with two decimals. A tie goes to the
even neighbour.
-/

namespace Sokoban

structure Fraction where
  num : Nat
  den : Nat

namespace Fraction

/-- The nearest whole number; a half goes to the even neighbour. -/
def round (q : Fraction) : Nat :=
  let whole := q.num / q.den
  let rest := 2 * (q.num % q.den)
  if rest < q.den then whole
  else if q.den < rest then whole + 1
  else if whole % 2 = 0 then whole else whole + 1

def add (p q : Fraction) : Fraction := ⟨p.num * q.den + q.num * p.den, p.den * q.den⟩

/-- The nearest number with 53 significant binary digits. The fraction is scaled up by a power of
two until it has more digits than needed, and the excess ones are rounded away. -/
def toBinary53 (q : Fraction) : Fraction :=
  if q.num = 0 then ⟨0, 1⟩
  else
    let scale := Nat.pow 2 (q.den.log2 + 54)
    let digits := (q.num * scale / q.den).log2 + 1
    let excess := Nat.pow 2 (digits - 53)
    ⟨round ⟨q.num * scale, q.den * excess⟩ * excess, scale⟩

def twoDecimals (q : Fraction) : String :=
  let hundredths := round ⟨100 * q.num, q.den⟩
  let rest := hundredths % 100
  toString (hundredths / 100) ++ "." ++ (if rest < 10 then "0" else "") ++ toString rest

end Fraction

/-- A span of time, exact to the nanosecond. -/
structure Duration where
  nanoseconds : Nat
  deriving DecidableEq, Ord

namespace Duration

def perSecond : Nat := 1000000000

def ofParts (seconds nanoseconds : Nat) : Duration := ⟨seconds * perSecond + nanoseconds⟩

def seconds (d : Duration) : Nat := d.nanoseconds / perSecond

def subsecond (d : Duration) : Nat := d.nanoseconds % perSecond

def distance (d e : Duration) : Duration :=
  ⟨(d.nanoseconds - e.nanoseconds) + (e.nanoseconds - d.nanoseconds)⟩

/-- The span as a binary number of seconds: the whole seconds and the part of a second are rounded
each for itself, and so is their sum. -/
def toFraction (d : Duration) : Fraction :=
  (Fraction.add (Fraction.toBinary53 ⟨d.seconds, 1⟩)
    (Fraction.toBinary53 ⟨d.subsecond, perSecond⟩)).toBinary53

def text (d : Duration) : String := d.toFraction.twoDecimals ++ "s"

end Duration

end Sokoban
