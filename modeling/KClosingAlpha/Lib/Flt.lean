import Mathlib.Algebra.Order.Field.Basic
/-!
# Flt — floating-point numbers computed exactly

The numbers of an ordered field with what IEEE arithmetic adds to them: one NaN and the two infinities, and no
rounding.  Zero has no sign here, and a quotient by zero has the sign of its dividend.  A comparison with NaN is false.
-/

set_option linter.unusedSectionVars false

/-- A floating-point number over an ordered field. -/
inductive Flt (K : Type*) where
  | nan
  | inf (minus : Bool)
  | fin (x : K)
deriving DecidableEq, Repr

namespace Flt

variable {K : Type*}

def isNan : Flt K → Bool
  | nan => true
  | _ => false

def isFinite : Flt K → Bool
  | fin _ => true
  | _ => false

/-- What stands for a missing number. -/
def fillna (x y : Flt K) : Flt K := if x.isNan then y else x

/-- `Series.where`: the number where the condition holds, NaN elsewhere. -/
def onlyIf (c : Bool) (x : Flt K) : Flt K := if c then x else nan

variable [Field K] [LinearOrder K]

def neg : Flt K → Flt K
  | nan => nan
  | inf m => inf (!m)
  | fin x => fin (-x)

def add : Flt K → Flt K → Flt K
  | nan, _ => nan
  | _, nan => nan
  | inf m, inf n => if m = n then inf m else nan
  | inf m, fin _ => inf m
  | fin _, inf n => inf n
  | fin x, fin y => fin (x + y)

def sub (x y : Flt K) : Flt K := add x (neg y)

def mul : Flt K → Flt K → Flt K
  | nan, _ => nan
  | _, nan => nan
  | inf m, inf n => inf (m != n)
  | inf m, fin y => if y = 0 then nan else inf (m != decide (y < 0))
  | fin x, inf n => if x = 0 then nan else inf (decide (x < 0) != n)
  | fin x, fin y => fin (x * y)

def div : Flt K → Flt K → Flt K
  | nan, _ => nan
  | _, nan => nan
  | inf _, inf _ => nan
  | inf m, fin y => inf (m != decide (y < 0))
  | fin _, inf _ => fin 0
  | fin x, fin y => if y = 0 then (if x = 0 then nan else inf (decide (x < 0))) else fin (x / y)

def lt : Flt K → Flt K → Bool
  | nan, _ => false
  | _, nan => false
  | inf m, inf n => m && !n
  | inf m, fin _ => m
  | fin _, inf n => !n
  | fin x, fin y => decide (x < y)

def le : Flt K → Flt K → Bool
  | nan, _ => false
  | _, nan => false
  | inf m, inf n => m || !n
  | inf m, fin _ => m
  | fin _, inf n => !n
  | fin x, fin y => decide (x ≤ y)

def abs : Flt K → Flt K
  | nan => nan
  | inf _ => inf false
  | fin x => fin (if x < 0 then -x else x)

/-- `np.maximum`: NaN where either is. -/
def maximum (x y : Flt K) : Flt K := if x.isNan || y.isNan then nan else if lt x y then y else x

/-- `np.minimum`. -/
def minimum (x y : Flt K) : Flt K := if x.isNan || y.isNan then nan else if lt y x then y else x

/-- `np.clip`. -/
def clip (x lo hi : Flt K) : Flt K := minimum (maximum x lo) hi

@[simp] theorem isNan_nan : (nan : Flt K).isNan = true := rfl
@[simp] theorem isNan_fin (x : K) : (fin x).isNan = false := rfl
@[simp] theorem isFinite_fin (x : K) : (fin x).isFinite = true := rfl
@[simp] theorem nan_mul (x : Flt K) : mul nan x = nan := by cases x <;> rfl
@[simp] theorem mul_nan (x : Flt K) : mul x nan = nan := by cases x <;> rfl
@[simp] theorem nan_add (x : Flt K) : add nan x = nan := by cases x <;> rfl
@[simp] theorem add_nan (x : Flt K) : add x nan = nan := by cases x <;> rfl
@[simp] theorem nan_div (x : Flt K) : div nan x = nan := by cases x <;> rfl
@[simp] theorem div_nan (x : Flt K) : div x nan = nan := by cases x <;> rfl
@[simp] theorem fin_mul_fin (x y : K) : mul (fin x) (fin y) = fin (x * y) := rfl
@[simp] theorem fin_add_fin (x y : K) : add (fin x) (fin y) = fin (x + y) := rfl
@[simp] theorem fin_lt_fin (x y : K) : lt (fin x) (fin y) = decide (x < y) := rfl
@[simp] theorem fin_le_fin (x y : K) : le (fin x) (fin y) = decide (x ≤ y) := rfl

@[simp] theorem fin_sub_fin (x y : K) : sub (fin x) (fin y) = fin (x - y) := by
  simp [sub, neg, sub_eq_add_neg]

theorem fin_div_fin {y : K} (x : K) (hy : y ≠ 0) : div (fin x) (fin y) = fin (x / y) := if_neg hy

/-- Scaling twice by positive numbers is scaling by their product. -/
theorem mul_mul_fin [IsStrictOrderedRing K] {a b : K} (ha : 0 < a) (hb : 0 < b) (x : Flt K) :
    mul (mul x (fin a)) (fin b) = mul x (fin (a * b)) := by
  cases x with
  | nan => rfl
  | inf m => simp [mul, ha.ne', hb.ne', ha.not_gt, hb.not_gt, (mul_pos ha hb).not_gt]
  | fin x => simp [mul_assoc]

@[simp] theorem mul_fin_one [IsStrictOrderedRing K] (x : Flt K) : mul x (fin 1) = x := by
  cases x with
  | nan => rfl
  | inf m => simp [mul, zero_lt_one.not_gt]
  | fin x => simp

theorem exists_of_pos {x : Flt K} (hf : x.isFinite = true) (hx : lt (fin 0) x = true) : ∃ c, x = fin c ∧ 0 < c := by
  cases x with
  | nan => cases hx
  | inf m => cases hf
  | fin c => exact ⟨c, rfl, of_decide_eq_true hx⟩

end Flt
