import KClosingAlpha.Py.Float
import Mathlib.Tactic.Ring
/-!
# Whole — the natural numbers that a double holds exactly

Below `2 ^ 53` a natural number is its own double.  What is read from it is its fraction, so that a comparison of two
such doubles is the comparison of the numbers.
-/
namespace Py
namespace PyFloat

/-- A double whose value is a natural number. -/
def IsWhole (x : PyFloat) (n : Nat) : Prop :=
  ∃ m e h, x = finite false m e h ∧ (toRatio m e).1 = n * (toRatio m e).2

theorem exists_den (m : Nat) (e : Int) : ∃ k, (toRatio m e).2 = 2 ^ k := by
  unfold toRatio
  split_ifs
  · exact ⟨0, rfl⟩
  · exact ⟨_, rfl⟩

@[simp] theorem num_zero (e : Int) : (toRatio 0 e).1 = 0 := by
  unfold toRatio
  split_ifs <;> simp

theorem ofParts_zero : ∃ e h, ofParts false 0 (-1074) = finite false 0 e h := ⟨-1074, by decide, rfl⟩

theorem isWhole_zero : IsWhole (ofParts false 0 (-1074)) 0 := by
  obtain ⟨e, h, heq⟩ := ofParts_zero
  exact ⟨0, e, h, heq, by rw [num_zero, Nat.zero_mul]⟩

/-- The logarithm of a fraction over a power of two. -/
theorem floorLog2_whole {n : Nat} (hn : n ≠ 0) (j : Nat) : floorLog2 (n * 2 ^ j) (2 ^ j) = n.log2 := by
  have hlog : (n * 2 ^ j).log2 = n.log2 + j := by
    rw [Nat.log2_eq_iff (Nat.mul_ne_zero hn (Nat.two_pow_pos j).ne')]
    constructor
    · rw [Nat.pow_add]
      exact Nat.mul_le_mul_right _ (Nat.log2_self_le hn)
    · rw [Nat.add_right_comm, Nat.pow_add]
      exact (Nat.mul_lt_mul_right (Nat.two_pow_pos j)).2 Nat.lt_log2_self
  have hk : ((n * 2 ^ j).log2 : Int) - ((2 ^ j).log2 : Int) = (n.log2 : Int) := by
    rw [hlog, Nat.log2_two_pow]
    omega
  have hle : 2 ^ j * 2 ^ n.log2 ≤ n * 2 ^ j := by
    rw [Nat.mul_comm]
    exact Nat.mul_le_mul_right _ (Nat.log2_self_le hn)
  unfold floorLog2 scale
  simp only [hk, Int.natCast_nonneg, if_true, Int.toNat_natCast]
  rw [if_neg (Nat.not_lt.2 hle)]

/-- Nothing is lost when a multiple of the denominator is rounded. -/
theorem roundHalfEven_mul (a : Nat) {d : Nat} (hd : 0 < d) : roundHalfEven (a * d) d = a := by
  unfold roundHalfEven
  rw [Nat.mul_mod_left, Nat.mul_div_cancel _ hd, if_pos (by omega)]

/-- **A natural number below `2 ^ 53`, over any power of two, is its own double.** -/
theorem isWhole_ofRatio {n : Nat} (h : n < 2 ^ 53) (j : Nat) : IsWhole (ofRatio false (n * 2 ^ j) (2 ^ j)) n := by
  rcases Nat.eq_zero_or_pos n with rfl | hn
  · rw [Nat.zero_mul, ofRatio, if_pos rfl]
    exact isWhole_zero
  have hne : n ≠ 0 := hn.ne'
  have hlog : n.log2 < 53 := (Nat.log2_lt hne).2 h
  let s := 52 - n.log2
  have he : max (-1074 : Int) (floorLog2 (n * 2 ^ j) (2 ^ j) - 52) = -(s : Int) := by
    rw [floorLog2_whole hne]
    omega
  have hm : roundHalfEven (scale (n * 2 ^ j) (2 ^ j) (-(s : Int))).1 (scale (n * 2 ^ j) (2 ^ j) (-(s : Int))).2 =
      n * 2 ^ s := by
    unfold scale
    split_ifs with h0
    · have hs : s = 0 := by omega
      rw [hs]
      simpa using roundHalfEven_mul n (Nat.two_pow_pos j)
    · rw [Int.neg_neg, Int.toNat_natCast, Nat.mul_right_comm]
      exact roundHalfEven_mul _ (Nat.two_pow_pos j)
  have hlow : 2 ^ 52 ≤ n * 2 ^ s := by
    calc 2 ^ 52 = 2 ^ n.log2 * 2 ^ s := by rw [← Nat.pow_add]; congr 1; omega
      _ ≤ n * 2 ^ s := Nat.mul_le_mul_right _ (Nat.log2_self_le hne)
  have hhigh : n * 2 ^ s < 2 ^ 53 := by
    calc n * 2 ^ s < 2 ^ (n.log2 + 1) * 2 ^ s := (Nat.mul_lt_mul_right (Nat.two_pow_pos s)).2 Nat.lt_log2_self
      _ = 2 ^ 53 := by rw [← Nat.pow_add]; congr 1; omega
  have hcanonical : doubleCanonical (n * 2 ^ s) (-(s : Int)) = true := by
    simp only [doubleCanonical, Bool.and_eq_true, Bool.or_eq_true, decide_eq_true_eq]
    omega
  refine ⟨n * 2 ^ s, -(s : Int), hcanonical, ?_, ?_⟩
  · unfold ofRatio
    rw [if_neg (Nat.mul_ne_zero hne (Nat.two_pow_pos j).ne')]
    simp only [he, hm]
    rw [if_neg hhigh.ne, ofParts, dif_pos hcanonical]
  · unfold toRatio
    split_ifs with h0
    · have hs : s = 0 := by omega
      simp [hs]
    · rw [Int.neg_neg, Int.toNat_natCast]

theorem isWhole_ofInt {n : Nat} (h : n < 2 ^ 53) : IsWhole (ofInt n) n := by
  have := isWhole_ofRatio h 0
  rw [Nat.pow_zero, Nat.mul_one] at this
  unfold ofInt
  rwa [decide_eq_false (by omega), Int.natAbs_natCast]

/-- A zero that is taken away changes nothing. -/
theorem IsWhole.sub_zero {x : PyFloat} {n : Nat} (hx : IsWhole x n) (h : n < 2 ^ 53) : IsWhole (sub x (ofInt 0)) n := by
  obtain ⟨m, e, hc, rfl, hr⟩ := hx
  obtain ⟨e₀, hz, hzero⟩ := ofParts_zero
  obtain ⟨k, hk⟩ := exists_den m e
  obtain ⟨j, hj⟩ := exists_den 0 e₀
  have hsub : sub (finite false m e hc) (ofInt 0) = ofFraction false ((n * 2 ^ (k + j) : Nat) : Int) (2 ^ (k + j)) := by
    rw [show ofInt 0 = ofParts false 0 (-1074) from rfl, hzero, sub, neg, add]
    simp only [signedRatio, hr, hk, hj, num_zero, Bool.false_and, Bool.not_false, if_true, Bool.false_eq_true, if_false]
    congr 1
    · push_cast
      ring
    · rw [← Nat.pow_add]
  rw [hsub, ofFraction]
  split_ifs with h0
  · have hn : n = 0 := by
      rcases Nat.mul_eq_zero.1 (Int.natCast_eq_zero.1 h0) with hn | hn
      · exact hn
      · exact absurd hn (Nat.two_pow_pos _).ne'
    rw [hn, ofRatio, if_pos rfl]
    exact isWhole_zero
  · rw [decide_eq_false (by omega), Int.natAbs_natCast]
    exact isWhole_ofRatio h _

/-- **A comparison of such doubles is the comparison of the numbers.** -/
theorem IsWhole.lt_iff {x y : PyFloat} {a b : Nat} (hx : IsWhole x a) (hy : IsWhole y b) : lt x y = true ↔ a < b := by
  obtain ⟨m, e, hc, rfl, hr⟩ := hx
  obtain ⟨m', e', hc', rfl, hr'⟩ := hy
  obtain ⟨k, hk⟩ := exists_den m e
  obtain ⟨k', hk'⟩ := exists_den m' e'
  have hpos : 0 < 2 ^ k * 2 ^ k' := Nat.mul_pos (Nat.two_pow_pos _) (Nat.two_pow_pos _)
  simp only [lt, signedRatio, Bool.false_eq_true, if_false, hr, hr', hk, hk', decide_eq_true_eq]
  have hl : ((a * 2 ^ k : Nat) : Int) * ((2 ^ k' : Nat) : Int) = ((a * (2 ^ k * 2 ^ k') : Nat) : Int) := by
    push_cast
    ring
  have hr : ((b * 2 ^ k' : Nat) : Int) * ((2 ^ k : Nat) : Int) = ((b * (2 ^ k * 2 ^ k') : Nat) : Int) := by
    push_cast
    ring
  rw [hl, hr, Int.ofNat_lt]
  exact Nat.mul_lt_mul_right hpos

end PyFloat
end Py
