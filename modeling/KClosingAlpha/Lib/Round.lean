import Mathlib.Algebra.Order.Floor.Ring
import Mathlib.Data.Int.Log
import Mathlib.Tactic.Linarith
import Mathlib.Tactic.Ring
/-!
# Round — rounding to so many digits, ties to even

The digits are of any base, so decimal and binary arithmetic are two instances.  Exponents are unbounded: overflow and
subnormal numbers are their formats' own.  What the proofs use is the order: rounding is monotone and leaves what it can
represent alone, so a representable bound of a number bounds what it is rounded to.
-/

set_option linter.unusedSectionVars false

namespace Round

variable {K : Type*} [Field K] [LinearOrder K] [IsStrictOrderedRing K] [FloorRing K]

/-- The nearest integer, the even one of two. -/
def halfEven (y : K) : ℤ :=
  if y - ⌊y⌋ < 1 / 2 then ⌊y⌋ else if 1 / 2 < y - ⌊y⌋ then ⌊y⌋ + 1 else if ⌊y⌋ % 2 = 0 then ⌊y⌋ else ⌊y⌋ + 1

/-- The unit of the last of `p` digits. -/
def unit (b p : ℕ) (x : K) : K := (b : K) ^ (Int.log b x + 1 - p)

/-- A number rounded to `p` digits. -/
def roundTo (b p : ℕ) (x : K) : K := halfEven (x / unit b p x) * unit b p x

/-- A non-negative number of `p` digits. -/
def Representable (b p : ℕ) (x : K) : Prop := ∃ (m : ℕ) (k : ℤ), m ≤ b ^ p ∧ x = m * (b : K) ^ k

/-! ## The nearest integer -/

section halfEven

variable {x y : K}

theorem floor_le_halfEven (y : K) : ⌊y⌋ ≤ halfEven y := by
  unfold halfEven
  split_ifs <;> omega

theorem halfEven_le_floor (y : K) : halfEven y ≤ ⌊y⌋ + 1 := by
  unfold halfEven
  split_ifs <;> omega

theorem halfEven_mono (h : x ≤ y) : halfEven x ≤ halfEven y := by
  rcases (Int.floor_mono h).lt_or_eq with hlt | heq
  · have := halfEven_le_floor x
    have := floor_le_halfEven y
    omega
  · -- Of numbers with one floor the greater is the farther from it.
    have hfar : x - ⌊x⌋ ≤ y - ⌊x⌋ := sub_le_sub_right h _
    unfold halfEven
    rw [← heq]
    split_ifs <;> first | omega | (exfalso; linarith)

theorem halfEven_intCast (n : ℤ) : halfEven (n : K) = n := by
  unfold halfEven
  rw [Int.floor_intCast, sub_self, if_pos (by norm_num)]

theorem le_halfEven_of_int {n : ℤ} (h : (n : K) ≤ y) : n ≤ halfEven y := by
  rw [← halfEven_intCast (K := K) n]
  exact halfEven_mono h

theorem halfEven_le_of_int {n : ℤ} (h : y ≤ n) : halfEven y ≤ n := by
  rw [← halfEven_intCast (K := K) n]
  exact halfEven_mono h

end halfEven

/-! ## So many digits -/

section digits

variable {b p : ℕ} {x y c : K}

theorem base_pos (hb : 1 < b) : (0 : K) < b := by
  exact_mod_cast (by omega : 0 < b)

theorem one_lt_base (hb : 1 < b) : (1 : K) < b := by
  exact_mod_cast hb

theorem unit_pos (hb : 1 < b) (x : K) : 0 < unit b p x := zpow_pos (base_pos hb) _

theorem pow_mul_unit (hb : 1 < b) (x : K) : (b : K) ^ p * unit b p x = (b : K) ^ (Int.log b x + 1) := by
  rw [unit, ← zpow_natCast, ← zpow_add₀ (base_pos hb).ne']
  congr 1
  omega

theorem pow_pred_mul_unit (hb : 1 < b) (hp : 0 < p) (x : K) :
    (b : K) ^ (p - 1) * unit b p x = (b : K) ^ Int.log b x := by
  rw [unit, ← zpow_natCast, ← zpow_add₀ (base_pos hb).ne']
  congr 1
  omega

theorem div_unit_le (hb : 1 < b) (x : K) : x / unit b p x ≤ (b : K) ^ p := by
  rw [div_le_iff₀ (unit_pos hb x), pow_mul_unit hb]
  exact (Int.lt_zpow_succ_log_self hb x).le

/-- **A number of `p` digits is what it is rounded to.** -/
theorem representable_roundTo (hb : 1 < b) (hx : 0 ≤ x) : Representable b p (roundTo b p x) := by
  have hnonneg : 0 ≤ halfEven (x / unit b p x) :=
    le_halfEven_of_int (by simpa using div_nonneg hx (unit_pos hb x).le)
  have hle : halfEven (x / unit b p x) ≤ ((b ^ p : ℕ) : ℤ) := halfEven_le_of_int (by simpa using div_unit_le hb x)
  refine ⟨(halfEven (x / unit b p x)).toNat, Int.log b x + 1 - p, by omega, ?_⟩
  have hcast : ((halfEven (x / unit b p x)).toNat : K) = halfEven (x / unit b p x) := by
    exact_mod_cast congrArg (Int.cast : ℤ → K) (Int.toNat_of_nonneg hnonneg)
  rw [hcast]
  rfl

theorem roundTo_of_unit {n : ℤ} (hb : 1 < b) (h : x = n * unit b p x) : roundTo b p x = x := by
  have hdiv : x / unit b p x = n := by
    rw [div_eq_iff (unit_pos hb x).ne']
    exact h
  rw [roundTo, hdiv, halfEven_intCast, ← h]

theorem Representable.roundTo_eq (hb : 1 < b) (hp : 0 < p) (h : Representable b p x) : roundTo b p x = x := by
  obtain ⟨m, k, hm, rfl⟩ := h
  rcases Nat.eq_zero_or_pos m with rfl | hpos
  · exact @roundTo_of_unit _ _ _ _ _ b p _ 0 hb (by simp)
  · have hbase := base_pos (K := K) hb
    have hx : (0 : K) < m * (b : K) ^ k := mul_pos (by exact_mod_cast hpos) (zpow_pos hbase k)
    have hexp : Int.log b ((m : K) * (b : K) ^ k) ≤ k + p ∧
        (Int.log b ((m : K) * (b : K) ^ k) = k + p → m = b ^ p) := by
      have hle : (m : K) * (b : K) ^ k ≤ (b : K) ^ (k + p) := by
        rw [zpow_add₀ hbase.ne', mul_comm, zpow_natCast]
        exact mul_le_mul_of_nonneg_left (by exact_mod_cast hm) (zpow_pos hbase k).le
      have hlog := Int.log_mono_right (b := b) hx hle
      rw [Int.log_zpow hb] at hlog
      refine ⟨hlog, fun heq => ?_⟩
      have hself := Int.zpow_log_le_self hb hx
      rw [heq, zpow_add₀ hbase.ne', mul_comm, zpow_natCast] at hself
      have hge : (b : K) ^ p ≤ m := le_of_mul_le_mul_right hself (zpow_pos hbase k)
      exact le_antisymm hm (by exact_mod_cast hge)
    have hunit : ∀ {n : ℕ}, Int.log b ((m : K) * (b : K) ^ k) + 1 - p + n = k →
        (m : K) * (b : K) ^ k = ((m * b ^ n : ℕ) : ℤ) * unit b p ((m : K) * (b : K) ^ k) := by
      intro n hn
      have hk : (b : K) ^ k = (b : K) ^ n * unit b p ((m : K) * (b : K) ^ k) := by
        rw [unit, ← zpow_natCast, ← zpow_add₀ hbase.ne']
        congr 1
        omega
      push_cast
      rw [mul_assoc, ← hk]
    rcases hexp.1.lt_or_eq with hlt | heq
    · obtain ⟨n, hn⟩ : ∃ n : ℕ, Int.log b ((m : K) * (b : K) ^ k) + 1 - p + n = k :=
        ⟨(k - (Int.log b ((m : K) * (b : K) ^ k) + 1 - p)).toNat, by omega⟩
      exact roundTo_of_unit hb (hunit hn)
    · -- All digits at their greatest and one more: the next power of the base.
      have hm' := hexp.2 heq
      refine @roundTo_of_unit _ _ _ _ _ b p _ ((b ^ (p - 1) : ℕ) : ℤ) hb ?_
      push_cast
      rw [pow_pred_mul_unit hb hp, heq, hm', zpow_add₀ hbase.ne', zpow_natCast, Nat.cast_pow, mul_comm]

theorem roundTo_mono (hb : 1 < b) (hp : 0 < p) (hx : 0 < x) (h : x ≤ y) : roundTo b p x ≤ roundTo b p y := by
  rcases (Int.log_mono_right (b := b) hx h).lt_or_eq with hlt | heq
  · have hupper : roundTo b p x ≤ (b : K) ^ (Int.log b x + 1) := by
      rw [← pow_mul_unit (p := p) hb x, roundTo]
      refine mul_le_mul_of_nonneg_right ?_ (unit_pos hb x).le
      have hle : halfEven (x / unit b p x) ≤ ((b ^ p : ℕ) : ℤ) := halfEven_le_of_int (by simpa using div_unit_le hb x)
      exact_mod_cast hle
    have hlower : (b : K) ^ Int.log b y ≤ roundTo b p y := by
      rw [← pow_pred_mul_unit hb hp y, roundTo]
      refine mul_le_mul_of_nonneg_right ?_ (unit_pos hb y).le
      have hself : (b : K) ^ (p - 1) ≤ y / unit b p y := by
        rw [le_div_iff₀ (unit_pos hb y), pow_pred_mul_unit hb hp]
        exact Int.zpow_log_le_self hb (hx.trans_le h)
      have hle : ((b ^ (p - 1) : ℕ) : ℤ) ≤ halfEven (y / unit b p y) := le_halfEven_of_int (by simpa using hself)
      exact_mod_cast hle
    exact hupper.trans ((zpow_le_zpow_right₀ (one_lt_base hb).le (by omega)).trans hlower)
  · have hunit : unit b p x = unit b p y := by rw [unit, unit, heq]
    rw [roundTo, roundTo, hunit]
    refine mul_le_mul_of_nonneg_right ?_ (unit_pos hb y).le
    exact_mod_cast halfEven_mono (div_le_div_of_nonneg_right h (unit_pos hb y).le)

theorem roundTo_le_of_representable (hb : 1 < b) (hp : 0 < p) (hc : Representable b p c) (hx : 0 < x) (h : x ≤ c) :
    roundTo b p x ≤ c := hc.roundTo_eq hb hp ▸ roundTo_mono hb hp hx h

theorem le_roundTo_of_representable (hb : 1 < b) (hp : 0 < p) (hc : Representable b p c) (hpos : 0 < c) (h : c ≤ x) :
    c ≤ roundTo b p x := hc.roundTo_eq hb hp ▸ roundTo_mono hb hp hpos h

theorem representable_natCast {n : ℕ} (h : n ≤ b ^ p) : Representable b p (n : K) := ⟨n, 0, h, by simp⟩

theorem Representable.mul_zpow (hb : 1 < b) (h : Representable b p x) (j : ℤ) :
    Representable b p (x * (b : K) ^ j) := by
  obtain ⟨m, k, hm, rfl⟩ := h
  exact ⟨m, k + j, hm, by rw [mul_assoc, zpow_add₀ (base_pos hb).ne']⟩

end digits
end Round
