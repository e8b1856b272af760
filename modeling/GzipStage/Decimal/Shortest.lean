/-! The decimal text of a double with the fewest digits that read back, and among those the
nearest. -/
namespace GzipStage.Decimal

def leastNormal : Nat := 4503599627370496

/-- A positive rational number `num / den` with the least and the greatest numerator that
still rounds to the same double, and whether these two do. -/
structure Rounded where
  num : Nat
  den : Nat
  least : Nat
  greatest : Nat
  inclusive : Bool

/-- The positive double with a given biased exponent and fraction field.  The interval below a
power of two is half as wide as the one above it. -/
def Rounded.ofFields (biased fraction : Nat) : Rounded :=
  let m := if biased = 0 then fraction else fraction + leastNormal
  let q : Int := (if biased = 0 then (1 : Int) else biased) - 1077
  let below := if fraction = 0 && biased > 1 then 1 else 2
  let up := Nat.pow 2 q.toNat
  { num := 4 * m * up
    den := Nat.pow 2 (-q).toNat
    least := (4 * m - below) * up
    greatest := (4 * m + 2) * up
    inclusive := m % 2 = 0 }

def Rounded.holds (r : Rounded) (c : Nat) (e : Int) : Bool :=
  let x := c * Nat.pow 10 e.toNat * r.den
  let s := Nat.pow 10 (-e).toNat
  if r.inclusive then r.least * s ≤ x && x ≤ r.greatest * s
  else r.least * s < x && x < r.greatest * s

/-- Counts how often a number below one needs to be multiplied by ten to reach one. -/
def Rounded.shift (den : Nat) : Nat → Nat → Nat
  | 0, _ => 0
  | fuel + 1, num => if den ≤ num then 0 else shift den fuel (num * 10) + 1

def Rounded.exponent (r : Rounded) : Int :=
  if r.den ≤ r.num then ((Nat.toDigits 10 (r.num / r.den)).length : Int) - 1
  else - (Rounded.shift r.den 400 r.num : Int)

/-- The nearest number with last digit at `10 ^ e` that reads back, an exact tie going to the
even one. -/
def Rounded.onGrid (r : Rounded) (e : Int) : Option Nat :=
  let num := r.num * Nat.pow 10 (-e).toNat
  let den := r.den * Nat.pow 10 e.toNat
  let c := num / den
  let rest := num % den
  let upper := if 2 * rest < den then false else if den < 2 * rest then true else c % 2 = 1
  let (near, far) := if upper then (c + 1, c) else (c, c + 1)
  if r.holds near e then some near
  else if r.holds far e then some far
  else none

/-- The first hit on the grids with `n`, `n + 1`, ... digits, as digits and the exponent of
the last digit. -/
def Rounded.search (r : Rounded) (first : Int) : Nat → Nat → Nat × Int
  | 0, n => (r.num / r.den, first + 1 - n)
  | fuel + 1, n =>
    let e := first + 1 - (n : Int)
    match r.onGrid e with
    | some c => (c, e)
    | none => search r first fuel (n + 1)

def trim (digits : List Char) : List Char :=
  match digits.reverse.dropWhile (· == '0') with
  | [] => ['0']
  | ds => ds.reverse

/-- The shortest digits of a positive double and the exponent of the first of them. -/
def Rounded.digits (r : Rounded) : List Char × Int :=
  let (c, e) := r.search r.exponent 17 1
  let ds := Nat.toDigits 10 c
  (trim ds, e + ds.length - 1)

structure Layout where
  /-- The least exponent of the first digit that is written without an exponent. -/
  least : Int
  /-- The first exponent that is too large for that. -/
  limit : Int

/-- Numbers in documents are positional from `0.00001` up to, but not including, `10 ^ 16`. -/
def documentLayout : Layout := ⟨-5, 16⟩

/-- Digits with the exponent of the first one as text; a positional number has a digit on
either side of the point. -/
def Layout.write (n : Layout) (ds : List Char) (x : Int) : List Char :=
  if n.least ≤ x && x < n.limit then
    if x < 0 then ['0', '.'] ++ List.replicate (-x - 1).toNat '0' ++ ds
    else
      let whole := x.toNat + 1
      if ds.length ≤ whole then ds ++ List.replicate (whole - ds.length) '0' ++ ['.', '0']
      else ds.take whole ++ ['.'] ++ ds.drop whole
  else
    let mantissa := if ds.length ≤ 1 then ds else ds.take 1 ++ ['.'] ++ ds.drop 1
    mantissa ++ ['e', if x < 0 then '-' else '+'] ++ Nat.toDigits 10 x.natAbs

def render (f : Float) : List Char :=
  let bits := f.toBits.toNat
  let sign := if bits.testBit 63 then ['-'] else []
  let biased := bits / leastNormal % 2048
  let fraction := bits % leastNormal
  if biased = 0 && fraction = 0 then sign ++ ['0', '.', '0']
  else
    let (ds, x) := (Rounded.ofFields biased fraction).digits
    sign ++ documentLayout.write ds x

end GzipStage.Decimal
