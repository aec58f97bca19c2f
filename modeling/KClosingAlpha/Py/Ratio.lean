import KClosingAlpha.Py.Whole
/-!
# Ratio — the double of a part of a whole

`n / d` with `n ≤ d` rounds to a finite double from zero to one.  A double without a sign is read by its fraction, and
so is a comparison with zero or one.
-/
namespace Py

/-- The logarithm of a part of a whole. -/
theorem floorLog2_part {n d : Nat} (hn : n ≠ 0) (h : n ≤ d) :
    ∃ j : Nat, floorLog2 n d = -(j : Int) ∧ d ≤ n * 2 ^ j ∧ n * 2 ^ j < 2 * d := by
  have hd : d ≠ 0 := by omega
  have hlog : n.log2 ≤ d.log2 := (Nat.le_log2 hd).2 (le_trans (Nat.log2_self_le hn) h)
  let i := d.log2 - n.log2
  have hlow : d < n * 2 ^ (i + 1) := by
    calc d < 2 ^ (d.log2 + 1) := Nat.lt_log2_self
      _ = 2 ^ n.log2 * 2 ^ (i + 1) := by rw [← Nat.pow_add]; congr 1; omega
      _ ≤ n * 2 ^ (i + 1) := Nat.mul_le_mul_right _ (Nat.log2_self_le hn)
  have hhigh : n * 2 ^ i < 2 * d := by
    calc n * 2 ^ i < 2 ^ (n.log2 + 1) * 2 ^ i := (Nat.mul_lt_mul_right (Nat.two_pow_pos i)).2 Nat.lt_log2_self
      _ = 2 * 2 ^ d.log2 := by rw [← Nat.pow_add, ← Nat.pow_succ']; congr 1; omega
      _ ≤ 2 * d := Nat.mul_le_mul_left _ (Nat.log2_self_le hd)
  have hk : (n.log2 : Int) - (d.log2 : Int) = -(i : Int) := by omega
  have hscale : scale n d (-(i : Int)) = (n * 2 ^ i, d) := by
    unfold scale
    split_ifs with h0
    · have hi : i = 0 := by omega
      simp [hi]
    · rw [Int.neg_neg, Int.toNat_natCast]
  unfold floorLog2
  simp only [hk, hscale]
  split_ifs with hlt
  · refine ⟨i + 1, by push_cast; ring, hlow.le, ?_⟩
    rw [Nat.pow_succ', Nat.mul_left_comm]
    exact (Nat.mul_lt_mul_left (by decide)).2 hlt
  · exact ⟨i, rfl, not_lt.1 hlt, hhigh⟩

theorem roundHalfEven_le {num den c : Nat} (hden : 0 < den) (h : num ≤ c * den) : roundHalfEven num den ≤ c := by
  have hdiv : num / den ≤ c := Nat.div_le_of_le_mul (by rwa [Nat.mul_comm])
  rcases Nat.lt_or_eq_of_le hdiv with hlt | heq
  · unfold roundHalfEven
    split_ifs <;> omega
  · -- nothing is left over
    have hmod : num % den = 0 := by
      have := Nat.div_add_mod num den
      rw [heq, Nat.mul_comm] at this
      omega
    unfold roundHalfEven
    rw [if_pos (by omega)]
    exact hdiv

theorem le_roundHalfEven {num den c : Nat} (hden : 0 < den) (h : c * den ≤ num) : c ≤ roundHalfEven num den := by
  have hdiv : c ≤ num / den := (Nat.le_div_iff_mul_le hden).2 h
  unfold roundHalfEven
  split_ifs <;> omega

namespace PyFloat

/-- A double without a sign: zero, a positive number or the positive infinity. -/
def unsigned : PyFloat → Bool
  | finite false _ _ _ | inf false => true
  | _ => false

theorem unsigned_ofParts (m : Nat) (e : Int) : (ofParts false m e).unsigned = true := by
  unfold ofParts
  split_ifs <;> rfl

theorem unsigned_ofRatio (n d : Nat) : (ofRatio false n d).unsigned = true := by
  unfold ofRatio
  simp only
  split_ifs <;> exact unsigned_ofParts _ _

/-- A rounded double that its mantissa and exponent fit. -/
theorem ofParts_eq {m : Nat} {e : Int} (hm : m < 2 ^ 53) (hlow : -1074 ≤ e) (hhigh : e ≤ 971)
    (hnormal : 2 ^ 52 ≤ m ∨ e = -1074) : ∃ h, ofParts false m e = finite false m e h := by
  have h : doubleCanonical m e = true := by
    simp only [doubleCanonical, Bool.and_eq_true, Bool.or_eq_true, decide_eq_true_eq]
    exact ⟨⟨⟨hm, hlow⟩, hhigh⟩, hnormal⟩
  exact ⟨h, dif_pos h⟩

/-- **A part of a whole is a finite double of at most one.** -/
theorem ofRatio_part {n d : Nat} (h : n ≤ d) :
    ∃ m e hc, ofRatio false n d = finite false m e hc ∧ (toRatio m e).1 ≤ (toRatio m e).2 := by
  rcases Nat.eq_zero_or_pos n with rfl | hn
  · obtain ⟨e, hc, heq⟩ := ofParts_zero
    exact ⟨0, e, hc, by rw [ofRatio, if_pos rfl, heq], by rw [num_zero]; exact Nat.zero_le _⟩
  have hd : 0 < d := by omega
  obtain ⟨j, hj, hlow, hhigh⟩ := floorLog2_part hn.ne' h
  let s := min 1074 (j + 52)
  have he : max (-1074 : Int) (floorLog2 n d - 52) = -(s : Int) := by
    rw [hj]
    omega
  have hs : 52 ≤ s := by omega
  have hscale : scale n d (-(s : Int)) = (n * 2 ^ s, d) := by
    unfold scale
    rw [if_neg (by omega), Int.neg_neg, Int.toNat_natCast]
  let m := roundHalfEven (n * 2 ^ s) d
  have hunit : m ≤ 2 ^ s := roundHalfEven_le hd (by rw [Nat.mul_comm]; exact Nat.mul_le_mul_left _ h)
  have htop : m ≤ 2 ^ 53 := by
    refine roundHalfEven_le hd ?_
    calc n * 2 ^ s ≤ n * 2 ^ (j + 52) := Nat.mul_le_mul_left _ (Nat.pow_le_pow_right (by decide) (Nat.min_le_right _ _))
      _ = n * 2 ^ j * 2 ^ 52 := by rw [Nat.pow_add, Nat.mul_assoc]
      _ ≤ 2 * d * 2 ^ 52 := Nat.mul_le_mul_right _ hhigh.le
      _ = 2 ^ 53 * d := by ring
  have hnormal : 2 ^ 52 ≤ m ∨ -(s : Int) = -1074 := by
    by_cases hjs : j + 52 ≤ 1074
    · left
      refine le_roundHalfEven hd ?_
      have hsj : s = j + 52 := Nat.min_eq_right hjs
      calc 2 ^ 52 * d ≤ 2 ^ 52 * (n * 2 ^ j) := Nat.mul_le_mul_left _ hlow
        _ = n * 2 ^ s := by rw [hsj, Nat.pow_add]; ring
    · right
      omega
  have hratio : ∀ (k : Nat) (i : Nat), 0 < i → toRatio k (-(i : Int)) = (k, 2 ^ i) := by
    intro k i hi
    unfold toRatio
    rw [if_neg (by omega), Int.neg_neg, Int.toNat_natCast]
  have hof : ofRatio false n d = if m = 2 ^ 53 then ofParts false (2 ^ 52) (-(s : Int) + 1) else ofParts false m (-(s : Int)) := by
    unfold ofRatio
    rw [if_neg hn.ne']
    simp only [he, hscale]
    rfl
  rw [hof]
  by_cases hm : m = 2 ^ 53
  · have hs53 : 53 ≤ s := (Nat.pow_le_pow_iff_right (by decide)).1 (hm ▸ hunit)
    have hexp : -(s : Int) + 1 = -((s - 1 : Nat) : Int) := by omega
    obtain ⟨hc, heq⟩ := ofParts_eq (m := 2 ^ 52) (e := -(s : Int) + 1) (by decide) (by omega) (by omega) (.inl le_rfl)
    rw [if_pos hm]
    refine ⟨_, _, hc, heq, ?_⟩
    rw [hexp, hratio _ _ (by omega)]
    exact Nat.pow_le_pow_right (by decide) (by omega)
  · obtain ⟨hc, heq⟩ := ofParts_eq (lt_of_le_of_ne htop hm) (by omega) (by omega) hnormal
    rw [if_neg hm]
    refine ⟨_, _, hc, heq, ?_⟩
    rw [hratio _ _ (by omega)]
    exact hunit

/-! ## Zero and one -/

/-- `abs(x)`. -/
def abs : PyFloat → PyFloat
  | nan => nan
  | inf _ => inf false
  | finite _ m e h => finite false m e h

/-- `math.ceil` of a finite double. -/
def ceil : PyFloat → Int
  | finite a m e _ =>
    if a then -((toRatio m e).1 / (toRatio m e).2 : Nat)
    else (((toRatio m e).1 + (toRatio m e).2 - 1) / (toRatio m e).2 : Nat)
  | _ => 0

/-- `math.floor` of a double without a sign. -/
def floor : PyFloat → Nat
  | finite _ m e _ => (toRatio m e).1 / (toRatio m e).2
  | _ => 0

theorem den_pos (m : Nat) (e : Int) : 0 < (toRatio m e).2 := by
  obtain ⟨k, hk⟩ := exists_den m e
  rw [hk]
  exact Nat.two_pow_pos k

theorem ofRatio_zero (d : Nat) : ofRatio false 0 d = finite false 0 (-1074) (by decide) := by
  rw [ofRatio, if_pos rfl]
  rfl

theorem ofRatio_zero_one : ofRatio false 0 1 = finite false 0 (-1074) (by decide) := ofRatio_zero 1

theorem ofRatio_one_one : ofRatio false 1 1 = finite false (2 ^ 52) (-52) (by decide) := by decide +kernel

theorem le_eq {x y : PyFloat} (hx : x.isNan = false) (hy : y.isNan = false) : le x y = !lt y x := by
  rw [le, hx, hy]
  rfl

theorem not_nan_of_isFinite {x : PyFloat} (h : x.isFinite = true) : x.isNan = false := by
  cases x with
  | nan => cases h
  | inf s => rfl
  | finite s m e hc => rfl

theorem not_nan_of_unsigned {x : PyFloat} (h : x.unsigned = true) : x.isNan = false := by
  cases x with
  | nan => cases h
  | inf s => rfl
  | finite s m e hc => rfl

theorem lt_zero_of_unsigned {x : PyFloat} (h : x.unsigned = true) : lt x (ofRatio false 0 1) = false := by
  rw [ofRatio_zero_one]
  cases x with
  | nan => rfl
  | inf s => cases s <;> first | rfl | cases h
  | finite s m e hc =>
    cases s with
    | true => cases h
    | false =>
      simp only [lt, signedRatio, Bool.false_eq_true, if_false, num_zero, decide_eq_false_iff_not, not_lt]
      rw [Nat.cast_zero, Int.zero_mul]
      exact Int.mul_nonneg (Int.natCast_nonneg _) (Int.natCast_nonneg _)

theorem zero_le_of_unsigned {x : PyFloat} (h : x.unsigned = true) : le (ofRatio false 0 1) x = true := by
  rw [le_eq (not_nan_of_unsigned (unsigned_ofRatio 0 1)) (not_nan_of_unsigned h), lt_zero_of_unsigned h]
  rfl

theorem le_one_of_part {m : Nat} {e : Int} {hc : doubleCanonical m e = true} (h : (toRatio m e).1 ≤ (toRatio m e).2) :
    le (finite false m e hc) (ofRatio false 1 1) = true := by
  have hlt : lt (finite false (2 ^ 52) (-52) (by decide)) (finite false m e hc) = false := by
    have hone : toRatio (2 ^ 52) (-52) = (2 ^ 52, 2 ^ 52) := by decide
    simp only [lt, signedRatio, Bool.false_eq_true, if_false, hone, decide_eq_false_iff_not, not_lt]
    exact_mod_cast (Nat.mul_comm (2 ^ 52) _).symm ▸ Nat.mul_le_mul_left (2 ^ 52) h
  rw [ofRatio_one_one, le_eq rfl rfl, hlt]
  rfl

/-- A number that is positive is finite and has a mantissa, or is the infinity. -/
theorem mant_pos_of_pos {s : Bool} {m : Nat} {e : Int} {hc : doubleCanonical m e = true}
    (h : lt (ofRatio false 0 1) (finite s m e hc) = true) : s = false ∧ m ≠ 0 := by
  rw [ofRatio_zero_one] at h
  simp only [lt, signedRatio, Bool.false_eq_true, if_false, num_zero, decide_eq_true_eq] at h
  cases s with
  | true =>
    rw [if_pos rfl, Nat.cast_zero, Int.zero_mul, Int.neg_mul] at h
    have hmul := Int.mul_nonneg (Int.natCast_nonneg (toRatio m e).1) (Int.natCast_nonneg (toRatio 0 (-1074)).2)
    omega
  | false =>
    refine ⟨rfl, ?_⟩
    rintro rfl
    rw [num_zero, if_neg Bool.false_ne_true, Nat.cast_zero, Int.zero_mul, Int.zero_mul] at h
    exact absurd h (lt_irrefl _)

theorem unsigned_abs {x : PyFloat} (h : x.isNan = false) : (abs x).unsigned = true := by
  cases x with
  | nan => cases h
  | inf s => rfl
  | finite s m e hc => rfl

theorem not_nan_ofFraction (z : Bool) (i : Int) (d : Nat) : (ofFraction z i d).isNan = false := by
  have hparts : ∀ s m e, (ofParts s m e).isNan = false := by
    intro s m e
    unfold ofParts
    split_ifs <;> rfl
  unfold ofFraction ofRatio
  simp only
  split_ifs <;> exact hparts _ _ _

theorem not_nan_sub {x y : PyFloat} (hx : x.isFinite = true) (hy : y.isFinite = true) : (sub x y).isNan = false := by
  cases x with
  | nan => cases hx
  | inf s => cases hx
  | finite s m e hc =>
    cases y with
    | nan => cases hy
    | inf s => cases hy
    | finite t n f hc' => exact not_nan_ofFraction _ _ _

/-- A quotient by a positive number keeps no sign. -/
theorem unsigned_div {x y : PyFloat} (hx : x.unsigned = true) (hfin : y.isFinite = true)
    (hpos : lt (ofRatio false 0 1) y = true) : (div x y).unsigned = true := by
  cases y with
  | nan => cases hfin
  | inf s => cases hfin
  | finite s n f hc =>
    obtain ⟨rfl, hn⟩ := mant_pos_of_pos hpos
    cases x with
    | nan => cases hx
    | inf s => cases s <;> first | rfl | cases hx
    | finite s m e hc' =>
      cases s with
      | true => cases hx
      | false =>
        rw [div, if_neg hn]
        exact unsigned_ofRatio _ _

theorem unsigned_mul {x y : PyFloat} (hx : x.unsigned = true) (hfin : y.isFinite = true)
    (hpos : lt (ofRatio false 0 1) y = true) : (mul x y).unsigned = true := by
  cases y with
  | nan => cases hfin
  | inf s => cases hfin
  | finite s n f hc =>
    obtain ⟨rfl, hn⟩ := mant_pos_of_pos hpos
    cases x with
    | nan => cases hx
    | inf s =>
      cases s with
      | true => cases hx
      | false =>
        rw [mul, if_neg hn]
        rfl
    | finite s m e hc' =>
      cases s with
      | true => cases hx
      | false => exact unsigned_ofRatio _ _

end PyFloat
end Py
