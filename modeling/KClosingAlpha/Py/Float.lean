import Mathlib
/-!
# Float — the double-precision numbers of the runtime

A finite double is `(-1)^neg · mant · 2^exp` with the one canonical pair `(mant, exp)` of its value, so equal doubles
are equal terms (the two zeros apart).  `ofRatio` rounds to nearest, ties to even; `ofDecimal` is what reading a
decimal literal does and `repr` what printing one does: the shortest digits that read back as the same double.
-/
namespace Py

/-- The canonical mantissa and exponent pairs of a double: normal with 53 bits, or subnormal at the least exponent. -/
def doubleCanonical (mant : Nat) (exp : Int) : Bool :=
  decide (mant < 2 ^ 53) && decide (-1074 ≤ exp) && decide (exp ≤ 971) && (decide (2 ^ 52 ≤ mant) || decide (exp = -1074))

/-- A double. -/
inductive PyFloat where
  | nan
  | inf (neg : Bool)
  | finite (neg : Bool) (mant : Nat) (exp : Int) (canonical : doubleCanonical mant exp = true)
  deriving DecidableEq

/-- `num / den · 2^(-e)`, as a numerator and a denominator. -/
def scale (num den : Nat) (e : Int) : Nat × Nat :=
  if 0 ≤ e then (num, den * 2 ^ e.toNat) else (num * 2 ^ (-e).toNat, den)

/-- The integer nearest to `num / den`, ties to even. -/
def roundHalfEven (num den : Nat) : Nat :=
  if 2 * (num % den) < den then num / den
  else if den < 2 * (num % den) then num / den + 1
  else if num / den % 2 = 0 then num / den else num / den + 1

/-- `⌊log₂ (num / den)⌋`. -/
def floorLog2 (num den : Nat) : Int :=
  let k : Int := (Nat.log2 num : Int) - (Nat.log2 den : Int)
  if (scale num den k).1 < (scale num den k).2 then k - 1 else k

/-- `⌊log₁₀ (num / den)⌋`. -/
def floorLog10 (num den : Nat) : Int :=
  let k : Int := (Nat.log 10 num : Int) - (Nat.log 10 den : Int)
  if 0 ≤ k then (if num < den * 10 ^ k.toNat then k - 1 else k)
  else (if num * 10 ^ (-k).toNat < den then k - 1 else k)

namespace PyFloat

/-- The double of a rounded mantissa; past the largest exponent it is an infinity. -/
def ofParts (neg : Bool) (mant : Nat) (exp : Int) : PyFloat :=
  if h : doubleCanonical mant exp = true then finite neg mant exp h else inf neg

/-- The double nearest to `num / den`, ties to even. -/
def ofRatio (neg : Bool) (num den : Nat) : PyFloat :=
  if num = 0 then ofParts neg 0 (-1074)
  else
    let e := max (-1074) (floorLog2 num den - 52)
    let m := roundHalfEven (scale num den e).1 (scale num den e).2
    if m = 2 ^ 53 then ofParts neg (2 ^ 52) (e + 1) else ofParts neg m e

/-- `mant · 2^exp`, as a numerator and a denominator. -/
def toRatio (mant : Nat) (exp : Int) : Nat × Nat :=
  if 0 ≤ exp then (mant * 2 ^ exp.toNat, 1) else (mant, 2 ^ (-exp).toNat)

/-- The double a decimal literal of digits `d` and exponent `k` reads as. -/
def ofDecimal (neg : Bool) (d : Nat) (k : Int) : PyFloat :=
  if 0 ≤ k then ofRatio neg (d * 10 ^ k.toNat) 1 else ofRatio neg d (10 ^ (-k).toNat)

/-- `math.isfinite`. -/
def isFinite : PyFloat → Bool
  | finite _ _ _ _ => true
  | _ => false

/-- The double of an integer. -/
def ofInt (i : Int) : PyFloat := ofRatio (decide (i < 0)) i.natAbs 1

/-- The product of two doubles. -/
def mul : PyFloat → PyFloat → PyFloat
  | nan, _ | _, nan => nan
  | inf a, inf b => inf (a != b)
  | inf a, finite b m _ _ | finite b m _ _, inf a => if m = 0 then nan else inf (a != b)
  | finite a m e _, finite b n f _ =>
    ofRatio (a != b) ((toRatio m e).1 * (toRatio n f).1) ((toRatio m e).2 * (toRatio n f).2)

/-- `max(0.0, x)`: the runtime keeps its first argument unless the second is greater. -/
def max0 : PyFloat → PyFloat
  | inf false => inf false
  | finite false m e h => if m = 0 then ofParts false 0 (-1074) else finite false m e h
  | _ => ofParts false 0 (-1074)

/-- `(-1)^neg · mant · 2^exp`, as a fraction. -/
def signedRatio (neg : Bool) (mant : Nat) (exp : Int) : Int × Nat :=
  (if neg then -((toRatio mant exp).1 : Int) else (toRatio mant exp).1, (toRatio mant exp).2)

/-- `x < y`; with a NaN no comparison holds. -/
def lt : PyFloat → PyFloat → Bool
  | inf true, inf false | inf true, finite _ _ _ _ | finite _ _ _ _, inf false => true
  | finite a m e _, finite b n f _ =>
    decide ((signedRatio a m e).1 * (signedRatio b n f).2 < (signedRatio b n f).1 * (signedRatio a m e).2)
  | _, _ => false

def isNan : PyFloat → Bool
  | nan => true
  | _ => false

/-- `x <= y`; with a NaN no comparison holds. -/
def le (x y : PyFloat) : Bool := !x.isNan && !y.isNan && !lt y x

/-! ## Sums and quotients -/

/-- The double nearest to a fraction; a zero takes the sign it is given. -/
def ofFraction (negZero : Bool) (num : Int) (den : Nat) : PyFloat :=
  if num = 0 then ofRatio negZero 0 1 else ofRatio (decide (num < 0)) num.natAbs den

def neg : PyFloat → PyFloat
  | nan => nan
  | inf a => inf (!a)
  | finite a m e h => finite (!a) m e h

/-- The sum of two doubles. -/
def add : PyFloat → PyFloat → PyFloat
  | nan, _ | _, nan => nan
  | inf a, inf b => if a = b then inf a else nan
  | inf a, finite _ _ _ _ | finite _ _ _ _, inf a => inf a
  | finite a m e _, finite b n f _ =>
    ofFraction (a && b)
      ((signedRatio a m e).1 * (signedRatio b n f).2 + (signedRatio b n f).1 * (signedRatio a m e).2)
      ((signedRatio a m e).2 * (signedRatio b n f).2)

def sub (x y : PyFloat) : PyFloat := add x (neg y)

/-- The quotient of two doubles; by a zero it is an infinity or a NaN. -/
def div : PyFloat → PyFloat → PyFloat
  | nan, _ | _, nan | inf _, inf _ => nan
  | inf a, finite b _ _ _ => inf (a != b)
  | finite a _ _ _, inf b => ofRatio (a != b) 0 1
  | finite a m e _, finite b n f _ =>
    if n = 0 then (if m = 0 then nan else inf (a != b))
    else ofRatio (a != b) ((toRatio m e).1 * (toRatio n f).2) ((toRatio m e).2 * (toRatio n f).1)

/-- `round(x)` of a finite double, ties to even. -/
def round : PyFloat → Int
  | finite a m e _ =>
    let n : Int := roundHalfEven (toRatio m e).1 (toRatio m e).2
    if a then -n else n
  | _ => 0

/-- `np.nan_to_num(x, nan=0.0)`. -/
def nanToNum : PyFloat → PyFloat
  | nan => ofInt 0
  | inf a => ofParts a (2 ^ 53 - 1) 971
  | finite a m e h => finite a m e h

/-! ## Printing -/

/-- The `n`-digit decimal nearest to `num / den`: its digits and their exponent. -/
def roundDigits (num den n : Nat) : Nat × Int :=
  let k : Int := floorLog10 num den - ((n : Int) - 1)
  if 0 ≤ k then (roundHalfEven num (den * 10 ^ k.toNat), k) else (roundHalfEven (num * 10 ^ (-k).toNat) den, k)

/-- Every digit of `mant · 2^exp`. -/
def exactDecimal (mant : Nat) (exp : Int) : Nat × Int :=
  if 0 ≤ exp then (mant * 2 ^ exp.toNat, 0) else (mant * 5 ^ (-exp).toNat, exp)

/-- The shortest decimal that reads back as the double, from one digit up. -/
def shortest (neg : Bool) (mant : Nat) (exp : Int) : Nat → Nat × Int
  | 0 => exactDecimal mant exp
  | fuel + 1 =>
    let p := roundDigits (toRatio mant exp).1 (toRatio mant exp).2 (17 - fuel)
    if ofDecimal neg p.1 p.2 = ofParts neg mant exp then p else shortest neg mant exp fuel

/-- Decimal digits without their trailing zeros. -/
def stripZeros : Nat → Nat × Int → Nat × Int
  | 0, p => p
  | fuel + 1, (d, k) => if d ≠ 0 ∧ d % 10 = 0 then stripZeros fuel (d / 10, k + 1) else (d, k)

/-- A decimal in the runtime's layout: positional from `1e-4` to below `1e16`, scientific elsewhere. -/
def formatDecimal (d : Nat) (k : Int) : List Char :=
  let cs := Nat.toDigits 10 d
  let decpt : Int := cs.length + k
  if -4 < decpt ∧ decpt ≤ 16 then
    if decpt ≤ 0 then '0' :: '.' :: (List.replicate (-decpt).toNat '0' ++ cs)
    else if cs.length ≤ decpt.toNat then cs ++ List.replicate (decpt.toNat - cs.length) '0' ++ ['.', '0']
    else cs.take decpt.toNat ++ '.' :: cs.drop decpt.toNat
  else
    let es := Nat.toDigits 10 (decpt - 1).natAbs
    (match cs with
      | [] => []
      | [c] => [c]
      | c :: cs => c :: '.' :: cs) ++
      'e' :: (if decpt - 1 < 0 then '-' else '+') :: (if es.length < 2 then '0' :: es else es)

/-- `repr` of a double. -/
def repr : PyFloat → List Char
  | nan => ['n', 'a', 'n']
  | inf neg => (if neg then ['-'] else []) ++ ['i', 'n', 'f']
  | finite neg mant exp _ =>
    (if neg then ['-'] else []) ++
      (if mant = 0 then ['0', '.', '0']
       else formatDecimal (stripZeros 20 (shortest neg mant exp 17)).1 (stripZeros 20 (shortest neg mant exp 17)).2)

end PyFloat
end Py
