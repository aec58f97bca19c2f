import KClosingAlpha.Lib.Flt
import KClosingAlpha.Lib.Round
import KClosingAlpha.Order.Contract
import Mathlib.Data.Rat.Floor
/-!
# EntryPrice — the limit of a buy and the exchange's price grid (`entry_limit_price`, `krx_tick_size`)

The buffered price is a decimal of 28 digits, its tick is looked up for the double next to it, and the tick is applied
to the decimal.  A decimal and its double can lie on two sides of a bound between bands.
-/
namespace Order

open Exc (raiseIf)
open Round (roundTo Representable)

/-! ## The code -/

/-- `KRX_TICK_BANDS`. -/
def krxTickBands : List (Flt ℚ × ℤ) :=
  [(.fin 2000, 1), (.fin 5000, 5), (.fin 20000, 10), (.fin 50000, 50), (.fin 200000, 100), (.fin 500000, 500),
   (.inf false, 1000)]

/-- `krx_tick_size` of one price; `none` is NaN. -/
def krxTickSize (price : Flt ℚ) : Option ℤ :=
  if price.isFinite && Flt.lt (.fin 0) price then (krxTickBands.find? (fun band => Flt.lt price band.1)).map (·.2)
  else none

/-- The tick of a positive price. -/
def tickOf (price : ℚ) : ℤ := (krxTickSize (.fin price)).getD 0

/-- A decimal in the default context. -/
def decimal (x : ℚ) : ℚ := roundTo 10 28 x

/-- `float(x)` of a decimal of at least one: past the greatest double it is an infinity. -/
def toDouble (x : ℚ) : Flt ℚ := if roundTo 2 53 x < 2 ^ 1024 then .fin (roundTo 2 53 x) else .inf false

/-- `Decimal(decision_price) * (1 + Decimal(str(buffer_bp)) / 10_000)`. -/
def bufferedPrice (decisionPrice : ℤ) (bufferBp : ℚ) : ℚ :=
  decimal (decisionPrice * decimal (1 + decimal (bufferBp / 10000)))

/-- `floor(raw / tick) * tick`. -/
def flooredPrice (raw : ℚ) (tick : ℤ) : ℤ := ⌊decimal (raw / tick)⌋ * tick

def entryLimitPrice (decisionPrice : ℤ) (bufferBp : Flt ℚ) (upperLimitPrice : ℤ) : Except OrderError ℤ := do
  raiseIf (decisionPrice ≤ 0) (.valueError "decision_price must be positive")
  match bufferBp with
  | .fin b => do
    raiseIf (b < 0) (.valueError "buffer_bp must be finite non-negative")
    raiseIf (upperLimitPrice ≤ 0) (.valueError "upper_limit_price must be positive")
    raiseIf (upperLimitPrice < decisionPrice) (.valueError "upper_limit_price must not be below decision_price")
    match toDouble (bufferedPrice decisionPrice b) with
    | .fin price => do
      let result := min (flooredPrice (bufferedPrice decisionPrice b) (tickOf price)) upperLimitPrice
      raiseIf (result < decisionPrice) (.valueError "decision_price is inconsistent with the tick grid")
      return result
    | _ => .error (.valueError "buffered decision_price must be finite")
  | _ => .error (.valueError "buffer_bp must be finite non-negative")

/-! ## The grid -/

section grid

variable {x y : ℚ} {p q t c : ℤ}

theorem tickOf_eq (hx : 0 < x) : tickOf x = if x < 2000 then 1 else if x < 5000 then 5 else if x < 20000 then 10
    else if x < 50000 then 50 else if x < 200000 then 100 else if x < 500000 then 500 else 1000 := by
  have hfind : tickOf x = ((krxTickBands.find? (fun band => Flt.lt (.fin x) band.1)).map (·.2)).getD 0 := by
    rw [tickOf, krxTickSize, if_pos (by simp [hx])]
  rw [hfind]
  unfold krxTickBands
  simp only [List.find?, Flt.fin_lt_fin]
  split_ifs <;> simp only [*, decide_true, decide_false] <;> rfl

theorem tickOf_pos (hx : 0 < x) : 0 < tickOf x := by
  rw [tickOf_eq hx]
  split_ifs <;> decide

theorem tickOf_dvd (hx : 0 < x) (h : x ≤ y) : tickOf x ∣ tickOf y := by
  rw [tickOf_eq hx, tickOf_eq (hx.trans_le h)]
  have hlt : ∀ {B : ℚ}, y < B → x < B := fun hy => h.trans_lt hy
  by_cases h1 : y < 2000
  · rw [if_pos h1, if_pos (hlt h1)]
  rw [if_neg h1]
  by_cases h2 : y < 5000
  · rw [if_pos h2, if_pos (hlt h2)]
    split_ifs <;> decide
  rw [if_neg h2]
  by_cases h3 : y < 20000
  · rw [if_pos h3, if_pos (hlt h3)]
    split_ifs <;> decide
  rw [if_neg h3]
  by_cases h4 : y < 50000
  · rw [if_pos h4, if_pos (hlt h4)]
    split_ifs <;> decide
  rw [if_neg h4]
  by_cases h5 : y < 200000
  · rw [if_pos h5, if_pos (hlt h5)]
    split_ifs <;> decide
  rw [if_neg h5]
  split_ifs <;> first | decide | exact absurd (hlt ‹_›) ‹_›

/-- The bounds between the bands. -/
def bounds : List ℚ := [2000, 5000, 20000, 50000, 200000, 500000]

theorem tickOf_congr (hx : 0 < x) (hy : 0 < y) (h : ∀ B ∈ bounds, y < B ↔ x < B) : tickOf y = tickOf x := by
  rw [tickOf_eq hx, tickOf_eq hy]
  simp only [h 2000 (by decide), h 5000 (by decide), h 20000 (by decide), h 50000 (by decide), h 200000 (by decide),
    h 500000 (by decide)]

/-- Prices of one band have one tick. -/
theorem tickOf_same {lo hi : ℚ} (hb : ∀ B ∈ bounds, B ≤ lo ∨ hi ≤ B) (hx : 0 < x) (hhi : x < hi) (hy : 0 < y)
    (h : lo ≤ y) (h' : y ≤ x) : tickOf y = tickOf x := by
  refine tickOf_congr hx hy (fun B hB => ?_)
  rcases hb B hB with hlo | hge
  · exact iff_of_false (not_lt.2 (hlo.trans h)) (not_lt.2 (hlo.trans (h.trans h')))
  · exact iff_of_true ((h'.trans_lt hhi).trans_le hge) (hhi.trans_le hge)

/-- The lower bound of a price's band is on the band's grid. -/
theorem exists_band (hx : 0 < x) : ∃ lo : ℤ, 0 ≤ lo ∧ lo ≤ 500000 ∧ (lo : ℚ) ≤ x ∧ tickOf x ∣ lo ∧
    ∀ y : ℚ, 0 < y → lo ≤ y → y ≤ x → tickOf y = tickOf x := by
  have hband : ∀ (lo t : ℤ) (hi : ℚ), tickOf x = t → (∀ B ∈ bounds, B ≤ (lo : ℚ) ∨ hi ≤ B) → (lo : ℚ) ≤ x → x < hi →
      0 ≤ lo → lo ≤ 500000 → t ∣ lo → ∃ lo : ℤ, 0 ≤ lo ∧ lo ≤ 500000 ∧ (lo : ℚ) ≤ x ∧ tickOf x ∣ lo ∧
        ∀ y : ℚ, 0 < y → lo ≤ y → y ≤ x → tickOf y = tickOf x :=
    fun lo t hi ht hb hlo hhi h0 h5 hdvd => ⟨lo, h0, h5, hlo, ht ▸ hdvd, fun y hy => tickOf_same hb hx hhi hy⟩
  have htick := tickOf_eq hx
  split_ifs at htick with h1 h2 h3 h4 h5 h6
  · exact hband 0 1 2000 htick (by decide) (by simpa using hx.le) h1 (by decide) (by decide) (by decide)
  · exact hband 2000 5 5000 htick (by decide) (not_lt.1 h1) h2 (by decide) (by decide) (by decide)
  · exact hband 5000 10 20000 htick (by decide) (not_lt.1 h2) h3 (by decide) (by decide) (by decide)
  · exact hband 20000 50 50000 htick (by decide) (not_lt.1 h3) h4 (by decide) (by decide) (by decide)
  · exact hband 50000 100 200000 htick (by decide) (not_lt.1 h4) h5 (by decide) (by decide) (by decide)
  · exact hband 200000 500 500000 htick (by decide) (not_lt.1 h5) h6 (by decide) (by decide) (by decide)
  · have hall : ∀ B ∈ bounds, B ≤ ((500000 : ℤ) : ℚ) := by decide
    exact hband 500000 1000 (x + 1) htick (fun B hB => .inl (hall B hB)) (not_lt.1 h6) (lt_add_one x) (by decide)
      (by decide) (by decide)

/-- A price on the grid: a positive multiple of the tick of its own band. -/
def Aligned (p : ℤ) : Prop := 0 < p ∧ tickOf p ∣ p

/-- The greatest multiple of a tick up to a price. -/
def floorTo (x : ℚ) (t : ℤ) : ℤ := ⌊x / t⌋ * t

theorem floorTo_le (ht : 0 < t) (x : ℚ) : (floorTo x t : ℚ) ≤ x := by
  have ht' : (0 : ℚ) < t := by exact_mod_cast ht
  have hfloor := Int.floor_le (x / t)
  rw [le_div_iff₀ ht'] at hfloor
  rw [floorTo]
  push_cast
  exact hfloor

theorem le_floorTo (ht : 0 < t) (hd : t ∣ q) (h : (q : ℚ) ≤ x) : q ≤ floorTo x t := by
  obtain ⟨k, rfl⟩ := hd
  have ht' : (0 : ℚ) < t := by exact_mod_cast ht
  have hk : k ≤ ⌊x / t⌋ := by
    rw [Int.le_floor, le_div_iff₀ ht']
    push_cast at h
    linarith
  rw [floorTo, mul_comm]
  exact Int.mul_le_mul_of_nonneg_right hk ht.le

theorem floorTo_eq (ht : 0 < t) (hd : t ∣ c) (h : (c : ℚ) ≤ x) (h' : x < c + t) : floorTo x t = c := by
  refine le_antisymm ?_ (le_floorTo ht hd h)
  obtain ⟨k, rfl⟩ := hd
  have hlt : ((floorTo x t : ℤ) : ℚ) < ((t * k + t : ℤ) : ℚ) := by
    push_cast at h' ⊢
    exact (floorTo_le ht x).trans_lt h'
  have hlt' : ⌊x / t⌋ * t < (k + 1) * t := by
    have := Int.cast_lt.1 hlt
    rw [floorTo] at this
    linarith
  have := lt_of_mul_lt_mul_right hlt' ht.le
  rw [floorTo, mul_comm t k]
  exact Int.mul_le_mul_of_nonneg_right (by omega) ht.le

/-- **The multiple of its tick next below a price is the greatest price of the grid up to it.** -/
theorem le_floorTo_of_aligned (hx : 0 < x) (hq : Aligned q) (h : (q : ℚ) ≤ x) : q ≤ floorTo x (tickOf x) := by
  have hq0 : (0 : ℚ) < q := by exact_mod_cast hq.1
  obtain ⟨lo, -, -, hlo, hdvd, hsame⟩ := exists_band hx
  by_cases hle : lo ≤ q
  · exact le_floorTo (tickOf_pos hx) (hsame q hq0 (by exact_mod_cast hle) h ▸ hq.2) h
  · exact (not_le.1 hle).le.trans (le_floorTo (tickOf_pos hx) hdvd hlo)

theorem aligned_floorTo (hx : 0 < x) (hp : Aligned p) (h : (p : ℚ) ≤ x) : Aligned (floorTo x (tickOf x)) := by
  obtain ⟨lo, -, -, hlo, hdvd, hsame⟩ := exists_band hx
  have hpos : 0 < floorTo x (tickOf x) := hp.1.trans_le (le_floorTo_of_aligned hx hp h)
  have htick := hsame (floorTo x (tickOf x)) (by exact_mod_cast hpos)
    (by exact_mod_cast le_floorTo (tickOf_pos hx) hdvd hlo) (floorTo_le (tickOf_pos hx) x)
  refine ⟨hpos, ?_⟩
  rw [htick]
  exact Dvd.intro_left _ rfl

end grid

/-! ## The arithmetic -/

section arithmetic

variable {x y raw bp bp' : ℚ} {dp dp' : ℤ}

theorem representable_decimal (hx : 0 ≤ x) : Representable 10 28 (decimal x) :=
  Round.representable_roundTo (by decide) hx

theorem one_le_decimal (h : 1 ≤ x) : 1 ≤ decimal x := by
  have hone : Representable 10 28 (1 : ℚ) := by
    simpa using @Round.representable_natCast ℚ _ _ _ _ 10 28 1 (by decide)
  exact Round.le_roundTo_of_representable (by decide) (by decide) hone one_pos h

theorem decimal_nonneg (hx : 0 ≤ x) : 0 ≤ decimal x := by
  obtain ⟨m, k, -, h⟩ := representable_decimal hx
  rw [h]
  exact mul_nonneg (Nat.cast_nonneg m) (zpow_nonneg (by norm_num) k)

theorem decimal_mono (hx : 0 ≤ x) (h : x ≤ y) : decimal x ≤ decimal y := by
  rcases hx.eq_or_lt with rfl | hpos
  · have hzero : decimal 0 = 0 := by
      have hrep : Representable 10 28 (0 : ℚ) := ⟨0, 0, by decide, by norm_num⟩
      exact hrep.roundTo_eq (by decide) (by decide)
    rw [hzero]
    exact decimal_nonneg h
  · exact Round.roundTo_mono (by decide) (by decide) hpos h

theorem le_decimal_of_intCast {n : ℤ} (hn : 0 < n) (hsmall : n ≤ 10 ^ 28) (h : (n : ℚ) ≤ x) : (n : ℚ) ≤ decimal x := by
  lift n to ℕ using hn.le
  refine Round.le_roundTo_of_representable (by decide) (by decide) ?_ (by exact_mod_cast hn) h
  simpa using @Round.representable_natCast ℚ _ _ _ _ 10 28 n (by exact_mod_cast hsmall)

theorem one_le_factor (hb : 0 ≤ bp) : 1 ≤ decimal (1 + decimal (bp / 10000)) := by
  have hshare := decimal_nonneg (div_nonneg hb (by norm_num : (0 : ℚ) ≤ 10000))
  exact one_le_decimal (by linarith)

theorem one_le_bufferedPrice (hdp : 0 < dp) (hb : 0 ≤ bp) : 1 ≤ bufferedPrice dp bp := by
  have hdp' : (1 : ℚ) ≤ dp := by exact_mod_cast hdp
  exact one_le_decimal (one_le_mul_of_one_le_of_one_le hdp' (one_le_factor hb))

/-- A price of at most 28 digits is never buffered downwards. -/
theorem le_bufferedPrice (hdp : 0 < dp) (hsmall : dp ≤ 10 ^ 28) (hb : 0 ≤ bp) : (dp : ℚ) ≤ bufferedPrice dp bp := by
  refine le_decimal_of_intCast hdp hsmall ?_
  have hdp' : (0 : ℚ) < dp := by exact_mod_cast hdp
  exact le_mul_of_one_le_right hdp'.le (one_le_factor hb)

theorem bufferedPrice_mono (hdp : 0 < dp) (hle : dp ≤ dp') (hb : 0 ≤ bp) (h : bp ≤ bp') :
    bufferedPrice dp bp ≤ bufferedPrice dp' bp' := by
  have hcast : (0 : ℚ) < dp := by exact_mod_cast hdp
  have hshare : decimal (bp / 10000) ≤ decimal (bp' / 10000) :=
    decimal_mono (div_nonneg hb (by norm_num)) (div_le_div_of_nonneg_right h (by norm_num))
  have hnonneg := decimal_nonneg (div_nonneg hb (by norm_num : (0 : ℚ) ≤ 10000))
  have hfactor : decimal (1 + decimal (bp / 10000)) ≤ decimal (1 + decimal (bp' / 10000)) :=
    decimal_mono (by linarith) (by linarith)
  have hone := one_le_factor hb
  refine decimal_mono (mul_nonneg hcast.le (by linarith)) ?_
  exact mul_le_mul (by exact_mod_cast hle) hfactor (by linarith) (hcast.le.trans (by exact_mod_cast hle))

/-! ## Division by the tick is exact -/

/-- Twice a decimal of 28 digits is one when its first digit is below five. -/
theorem representable_double {i : ℤ} (h : Representable 10 28 raw) (hlo : (10 : ℚ) ^ i < raw)
    (hhi : 2 * raw ≤ (10 : ℚ) ^ (i + 1)) : Representable 10 28 (2 * raw) := by
  obtain ⟨m, k, hm, rfl⟩ := h
  push_cast at hlo hhi
  have hk : i < 28 + k := by
    have hlt : (10 : ℚ) ^ i < (10 : ℚ) ^ (28 + k) := by
      refine hlo.trans_le ?_
      rw [zpow_add₀ (by norm_num)]
      exact mul_le_mul_of_nonneg_right (by exact_mod_cast hm) (zpow_nonneg (by norm_num) k)
    exact (zpow_lt_zpow_iff_right₀ (by norm_num)).1 hlt
  refine ⟨2 * m, k, ?_, by push_cast; ring⟩
  have hle : (2 * m : ℚ) * 10 ^ k ≤ 10 ^ (28 : ℤ) * 10 ^ k := by
    calc (2 * m : ℚ) * 10 ^ k = 2 * (m * 10 ^ k) := by ring
      _ ≤ 10 ^ (i + 1) := hhi
      _ ≤ 10 ^ (28 + k) := zpow_le_zpow_right₀ (by norm_num) (by omega)
      _ = 10 ^ (28 : ℤ) * 10 ^ k := zpow_add₀ (by norm_num) _ _
  have := le_of_mul_le_mul_right hle (zpow_pos (by norm_num) k)
  exact_mod_cast this

theorem representable_div_tickOf (hpos : 0 < raw) (h : Representable 10 28 raw) :
    Representable 10 28 (raw / tickOf raw) := by
  have hshift : ∀ j : ℕ, Representable 10 28 (raw / ((10 ^ j : ℤ) : ℚ)) := fun j => by
    have hmul := h.mul_zpow (by decide) (-(j : ℤ))
    rwa [zpow_neg, zpow_natCast, ← div_eq_mul_inv, ← Nat.cast_pow] at hmul
  have hfive : ∀ j : ℕ, (10 : ℚ) ^ (j + 3) < raw → 2 * raw ≤ (10 : ℚ) ^ (j + 4) →
      Representable 10 28 (raw / ((5 * 10 ^ j : ℤ) : ℚ)) := fun j hlo hhi => by
    have hdouble := @representable_double raw (j + 3) h (by exact_mod_cast hlo) (by exact_mod_cast hhi)
    have hmul := hdouble.mul_zpow (by decide) (-((j + 1 : ℕ) : ℤ))
    have heq : 2 * raw * ((10 : ℕ) : ℚ) ^ (-((j + 1 : ℕ) : ℤ)) = raw / ((5 * 10 ^ j : ℤ) : ℚ) := by
      rw [zpow_neg, zpow_natCast]
      push_cast
      rw [pow_succ]
      field_simp
      ring
    rwa [heq] at hmul
  have htick := tickOf_eq hpos
  split_ifs at htick with h1 h2 h3 h4 h5 h6 <;> rw [htick]
  · exact hshift 0
  · exact hfive 0 (by norm_num; linarith) (by norm_num; linarith)
  · exact hshift 1
  · exact hfive 1 (by norm_num; linarith) (by norm_num; linarith)
  · exact hshift 2
  · exact hfive 2 (by norm_num; linarith) (by norm_num; linarith)
  · exact hshift 3

theorem flooredPrice_tickOf (hpos : 0 < raw) (h : Representable 10 28 raw) :
    flooredPrice raw (tickOf raw) = floorTo raw (tickOf raw) := by
  have hexact : decimal (raw / tickOf raw) = raw / tickOf raw :=
    (representable_div_tickOf hpos h).roundTo_eq (by decide) (by decide)
  rw [flooredPrice, hexact, floorTo]

end arithmetic

/-! ## The double of the tick -/

section double

variable {raw : ℚ} {n upper : ℤ}

theorem roundTo_le_intCast (hpos : 0 < raw) (h0 : 0 ≤ n) (hsmall : n ≤ 2 ^ 53) (h : raw ≤ n) :
    roundTo 2 53 raw ≤ n := by
  lift n to ℕ using h0
  refine Round.roundTo_le_of_representable (by decide) (by decide) ?_ hpos h
  simpa using @Round.representable_natCast ℚ _ _ _ _ 2 53 n (by exact_mod_cast hsmall)

theorem intCast_le_roundTo (h0 : 0 < n) (hsmall : n ≤ 2 ^ 53) (h : (n : ℚ) ≤ raw) : (n : ℚ) ≤ roundTo 2 53 raw := by
  lift n to ℕ using h0.le
  refine Round.le_roundTo_of_representable (by decide) (by decide) ?_ (by exact_mod_cast h0) h
  simpa using @Round.representable_natCast ℚ _ _ _ _ 2 53 n (by exact_mod_cast hsmall)

/-- A double of another band than its decimal is the bound the decimal lies below. -/
theorem roundTo_eq_bound (hpos : 1 ≤ raw) (h : tickOf (roundTo 2 53 raw) ≠ tickOf raw) :
    ∃ B : ℤ, roundTo 2 53 raw = B ∧ B ≤ 2 ^ 53 ∧ (B : ℚ) < raw + 1 ∧ tickOf (B : ℚ) ∣ B := by
  have hraw : 0 < raw := by linarith
  have hprice : 0 < roundTo 2 53 raw := by
    have hone : ((1 : ℤ) : ℚ) ≤ roundTo 2 53 raw := intCast_le_roundTo (by decide) (by decide) (by simpa using hpos)
    push_cast at hone
    linarith
  by_contra hno
  refine h (tickOf_congr hraw hprice (fun B hB => ?_))
  obtain ⟨c, rfl, hc0, hc, hdvd⟩ : ∃ c : ℤ, B = c ∧ 0 < c ∧ c ≤ 2 ^ 53 ∧ tickOf (c : ℚ) ∣ c := by
    simp only [bounds, List.mem_cons, List.not_mem_nil, or_false] at hB
    obtain rfl | rfl | rfl | rfl | rfl | rfl := hB
    · exact ⟨2000, by norm_num, by decide, by decide, by decide +kernel⟩
    · exact ⟨5000, by norm_num, by decide, by decide, by decide +kernel⟩
    · exact ⟨20000, by norm_num, by decide, by decide, by decide +kernel⟩
    · exact ⟨50000, by norm_num, by decide, by decide, by decide +kernel⟩
    · exact ⟨200000, by norm_num, by decide, by decide, by decide +kernel⟩
    · exact ⟨500000, by norm_num, by decide, by decide, by decide +kernel⟩
  by_cases hlt : raw < c
  · refine iff_of_true ?_ hlt
    refine lt_of_le_of_ne (roundTo_le_intCast hraw hc0.le hc hlt.le) (fun heq => hno ⟨c, heq, hc, ?_, hdvd⟩)
    by_contra hfar
    have hle := @roundTo_le_intCast raw (c - 1) hraw (by omega) (by omega) (by push_cast; linarith)
    rw [heq] at hle
    push_cast at hle
    linarith
  · exact iff_of_false (not_lt.2 (intCast_le_roundTo hc0 hc (not_lt.1 hlt))) hlt

/-- A limit a tick below the double is below what the decimal is floored to. -/
theorem le_flooredPrice (hpos : 1 ≤ raw) (h : tickOf (roundTo 2 53 raw) ≠ tickOf raw) (h0 : 0 < upper)
    (hle : (upper + tickOf (roundTo 2 53 raw) : ℚ) ≤ roundTo 2 53 raw) :
    upper ≤ flooredPrice raw (tickOf (roundTo 2 53 raw)) := by
  obtain ⟨B, hprice, hsmall, hnear, hdvd⟩ := roundTo_eq_bound hpos h
  rw [hprice] at hle ⊢
  have hB : (0 : ℚ) < B := by
    have hone : ((1 : ℤ) : ℚ) ≤ roundTo 2 53 raw := intCast_le_roundTo (by decide) (by decide) (by simpa using hpos)
    rw [hprice] at hone
    push_cast at hone
    linarith
  have ht := tickOf_pos hB
  have hle' : upper + tickOf (B : ℚ) ≤ B := by exact_mod_cast hle
  obtain ⟨n, hn⟩ := hdvd
  have ht' : (0 : ℚ) < tickOf (B : ℚ) := by exact_mod_cast ht
  -- The decimal has all the ticks of the bound but one.
  have hn1 : 0 < n - 1 := by nlinarith
  have hn2 : n - 1 ≤ 10 ^ 28 := by nlinarith
  have hdiv : ((n - 1 : ℤ) : ℚ) ≤ raw / tickOf (B : ℚ) := by
    rw [le_div_iff₀ ht']
    have hprod : (B : ℚ) = tickOf (B : ℚ) * n := by exact_mod_cast hn
    have hone : (1 : ℚ) ≤ tickOf (B : ℚ) := by exact_mod_cast ht
    push_cast
    linarith
  have hfloor : n - 1 ≤ ⌊decimal (raw / tickOf (B : ℚ))⌋ := Int.le_floor.2 (le_decimal_of_intCast hn1 hn2 hdiv)
  calc upper ≤ (n - 1) * tickOf (B : ℚ) := by linarith
    _ ≤ flooredPrice raw (tickOf (B : ℚ)) := Int.mul_le_mul_of_nonneg_right hfloor ht.le

end double

/-! ## The limit -/

/-- The prices a buy may be limited to. -/
def candidates (decisionPrice : ℤ) (buffered : ℚ) (upperLimitPrice : ℤ) : Set ℤ :=
  {p | Aligned p ∧ decisionPrice ≤ p ∧ (p : ℚ) ≤ buffered ∧ p ≤ upperLimitPrice}

/-- The buffered price is a double, has kept the decision price, and its double is of its band unless the upper limit
decides alone. -/
structure Priced (decisionPrice : ℤ) (bufferBp : ℚ) (upperLimitPrice : ℤ) : Prop where
  finite : roundTo 2 53 (bufferedPrice decisionPrice bufferBp) < 2 ^ 1024
  covers : (decisionPrice : ℚ) ≤ bufferedPrice decisionPrice bufferBp
  band : tickOf (roundTo 2 53 (bufferedPrice decisionPrice bufferBp)) = tickOf (bufferedPrice decisionPrice bufferBp) ∨
    (upperLimitPrice + tickOf (roundTo 2 53 (bufferedPrice decisionPrice bufferBp)) : ℚ) ≤
      roundTo 2 53 (bufferedPrice decisionPrice bufferBp)

/-- A buffered price none of whose steps has more than 28 digits. -/
structure FewDigits (decisionPrice : ℤ) (bufferBp : ℚ) : Prop where
  share : Representable 10 28 (bufferBp / 10000)
  factor : Representable 10 28 (1 + bufferBp / 10000)
  product : Representable 10 28 (decisionPrice * (1 + bufferBp / 10000))

section limit

variable {decisionPrice decisionPrice' upperLimitPrice result result' : ℤ} {bufferBp bufferBp' : ℚ}

theorem FewDigits.bufferedPrice_eq (h : FewDigits decisionPrice bufferBp) :
    bufferedPrice decisionPrice bufferBp = decisionPrice * (1 + bufferBp / 10000) := by
  have hdec : ∀ {x : ℚ}, Representable 10 28 x → decimal x = x := fun hx => hx.roundTo_eq (by decide) (by decide)
  rw [bufferedPrice, hdec h.share, hdec h.factor, hdec h.product]

/-- The checks of the arguments pass, and the rest is the limit and its comparison with the decision price. -/
theorem entryLimitPrice_eq (hdp : 0 < decisionPrice) (hb : 0 ≤ bufferBp) (hle : decisionPrice ≤ upperLimitPrice)
    (hfin : roundTo 2 53 (bufferedPrice decisionPrice bufferBp) < 2 ^ 1024) :
    entryLimitPrice decisionPrice (.fin bufferBp) upperLimitPrice =
      let result := min (flooredPrice (bufferedPrice decisionPrice bufferBp)
        (tickOf (roundTo 2 53 (bufferedPrice decisionPrice bufferBp)))) upperLimitPrice
      if result < decisionPrice then .error (.valueError "decision_price is inconsistent with the tick grid")
      else .ok result := by
  have hup : ¬upperLimitPrice ≤ 0 := by omega
  rw [entryLimitPrice]
  simp only [raiseIf, if_neg (not_le.2 hdp), if_neg (not_lt.2 hb), if_neg hup, if_neg (not_lt.2 hle), toDouble,
    if_pos hfin]
  dsimp only [bind, Except.bind, pure, Except.pure]
  split_ifs <;> rfl

theorem entryLimitPrice_overflow (hdp : 0 < decisionPrice) (hb : 0 ≤ bufferBp) (hle : decisionPrice ≤ upperLimitPrice)
    (hover : 2 ^ 1024 ≤ roundTo 2 53 (bufferedPrice decisionPrice bufferBp)) :
    entryLimitPrice decisionPrice (.fin bufferBp) upperLimitPrice =
      .error (.valueError "buffered decision_price must be finite") := by
  have hup : ¬upperLimitPrice ≤ 0 := by omega
  rw [entryLimitPrice]
  simp only [raiseIf, if_neg (not_le.2 hdp), if_neg (not_lt.2 hb), if_neg hup, if_neg (not_lt.2 hle), toDouble,
    if_neg (not_lt.2 hover)]
  rfl

/-- What is floored and capped is the greatest of the candidates. -/
theorem isGreatest_min (hdp : Aligned decisionPrice) (hb : 0 ≤ bufferBp) (hup : Aligned upperLimitPrice)
    (hle : decisionPrice ≤ upperLimitPrice) (h : Priced decisionPrice bufferBp upperLimitPrice) :
    IsGreatest (candidates decisionPrice (bufferedPrice decisionPrice bufferBp) upperLimitPrice)
      (min (flooredPrice (bufferedPrice decisionPrice bufferBp)
        (tickOf (roundTo 2 53 (bufferedPrice decisionPrice bufferBp)))) upperLimitPrice) := by
  have hone := one_le_bufferedPrice hdp.1 hb
  have hpos : 0 < bufferedPrice decisionPrice bufferBp := by linarith
  by_cases htick : tickOf (roundTo 2 53 (bufferedPrice decisionPrice bufferBp)) =
      tickOf (bufferedPrice decisionPrice bufferBp)
  · have hrep : Representable 10 28 (bufferedPrice decisionPrice bufferBp) := by
      refine representable_decimal (mul_nonneg (by exact_mod_cast hdp.1.le) ?_)
      linarith [one_le_factor hb]
    rw [htick, flooredPrice_tickOf hpos hrep]
    have hfloor := aligned_floorTo hpos hdp h.covers
    have hfloor_le := floorTo_le (tickOf_pos hpos) (bufferedPrice decisionPrice bufferBp)
    have hdp_le := le_floorTo_of_aligned hpos hdp h.covers
    refine ⟨⟨?_, le_min hdp_le hle, ?_, min_le_right _ _⟩, fun q ⟨hq, _, hraw, hq_up⟩ => ?_⟩
    · rcases min_choice (floorTo (bufferedPrice decisionPrice bufferBp) (tickOf (bufferedPrice decisionPrice bufferBp)))
        upperLimitPrice with heq | heq <;> rw [heq]
      exacts [hfloor, hup]
    · exact le_trans (by exact_mod_cast min_le_left _ _) hfloor_le
    · exact le_min (le_floorTo_of_aligned hpos hq hraw) hq_up
  · -- The upper limit is what the order is priced at.
    have hcap := h.band.resolve_left htick
    have hfloored := le_flooredPrice hone htick hup.1 hcap
    obtain ⟨B, hprice, -, hnear, -⟩ := roundTo_eq_bound hone htick
    rw [min_eq_right hfloored]
    refine ⟨⟨hup, hle, ?_, le_rfl⟩, fun q ⟨_, _, _, hq_up⟩ => hq_up⟩
    have hB : (0 : ℚ) < roundTo 2 53 (bufferedPrice decisionPrice bufferBp) := by
      have := intCast_le_roundTo (n := 1) (by decide) (by decide) (by simpa using hone)
      push_cast at this
      linarith
    have htick1 : (1 : ℚ) ≤ tickOf (roundTo 2 53 (bufferedPrice decisionPrice bufferBp)) := by
      exact_mod_cast tickOf_pos hB
    rw [← hprice] at hnear
    linarith

theorem entryLimitPrice_ok (hdp : Aligned decisionPrice) (hb : 0 ≤ bufferBp) (hup : Aligned upperLimitPrice)
    (hle : decisionPrice ≤ upperLimitPrice) (h : Priced decisionPrice bufferBp upperLimitPrice) :
    ∃ p, entryLimitPrice decisionPrice (.fin bufferBp) upperLimitPrice = .ok p ∧
      IsGreatest (candidates decisionPrice (bufferedPrice decisionPrice bufferBp) upperLimitPrice) p := by
  have hgreatest := isGreatest_min hdp hb hup hle h
  refine ⟨_, ?_, hgreatest⟩
  rw [entryLimitPrice_eq hdp.1 hb hle h.finite]
  exact if_neg (not_lt.2 hgreatest.1.2.1)

/-- More room gives no lower greatest price. -/
theorem candidates_mono {raw raw' : ℚ} (hraw : raw ≤ raw')
    (h : IsGreatest (candidates decisionPrice raw upperLimitPrice) result)
    (h' : IsGreatest (candidates decisionPrice' raw' upperLimitPrice) result') : result ≤ result' := by
  obtain ⟨⟨hal, -, hle_raw, hup⟩, -⟩ := h
  rcases le_total decisionPrice' result with hin | hout
  · exact h'.2 ⟨hal, hin, hle_raw.trans hraw, hup⟩
  · exact hout.trans h'.1.2.1

/-- **A buy is limited to the greatest price of the grid from the decision price up to the buffered price and the upper
limit, and a higher decision price or buffer never lowers it.** -/
theorem entry_limit_price_on_grid (hdp : Aligned decisionPrice) (hb : 0 ≤ bufferBp) (hup : Aligned upperLimitPrice)
    (hle : decisionPrice ≤ upperLimitPrice) :
    (Priced decisionPrice bufferBp upperLimitPrice →
      ∃ p, entryLimitPrice decisionPrice (.fin bufferBp) upperLimitPrice = .ok p ∧
        IsGreatest (candidates decisionPrice (bufferedPrice decisionPrice bufferBp) upperLimitPrice) p) ∧
    (2 ^ 1024 ≤ roundTo 2 53 (bufferedPrice decisionPrice bufferBp) →
      entryLimitPrice decisionPrice (.fin bufferBp) upperLimitPrice =
        .error (.valueError "buffered decision_price must be finite")) ∧
    (FewDigits decisionPrice bufferBp →
      bufferedPrice decisionPrice bufferBp = decisionPrice * (1 + bufferBp / 10000)) ∧
    ∀ decisionPrice' bufferBp', Aligned decisionPrice' → decisionPrice ≤ decisionPrice' →
      decisionPrice' ≤ upperLimitPrice → bufferBp ≤ bufferBp' → Priced decisionPrice bufferBp upperLimitPrice →
      Priced decisionPrice' bufferBp' upperLimitPrice →
      ∀ p p', entryLimitPrice decisionPrice (.fin bufferBp) upperLimitPrice = .ok p →
        entryLimitPrice decisionPrice' (.fin bufferBp') upperLimitPrice = .ok p' → p ≤ p' := by
  refine ⟨entryLimitPrice_ok hdp hb hup hle, entryLimitPrice_overflow hdp.1 hb hle, FewDigits.bufferedPrice_eq, ?_⟩
  intro dp' bp' hdp' hdpdp' hle' hbb' h h' p p' hp hp'
  obtain ⟨q, hq, hgreatest⟩ := entryLimitPrice_ok hdp hb hup hle h
  obtain ⟨q', hq', hgreatest'⟩ := entryLimitPrice_ok hdp' (hb.trans hbb') hup hle' h'
  obtain rfl : q = p := Except.ok.inj (hq.symm.trans hp)
  obtain rfl : q' = p' := Except.ok.inj (hq'.symm.trans hp')
  exact candidates_mono (bufferedPrice_mono hdp.1 hdpdp' hb hbb') hgreatest hgreatest'

end limit

instance (p : ℤ) : Decidable (Aligned p) := inferInstanceAs (Decidable (_ ∧ _))

/-- A buffer of three hundredths takes a buy over a bound. -/
theorem entry_limit_price_on_grid_over_bound : ∃ p, entryLimitPrice 199900 (.fin 300) 259500 = .ok p ∧
    IsGreatest (candidates 199900 (bufferedPrice 199900 300) 259500) p := by
  refine (@entry_limit_price_on_grid 199900 259500 300 ?_ ?_ ?_ ?_).1 ⟨?_, ?_, .inl ?_⟩ <;> decide +kernel

/-- A buffer past the greatest double is refused, and a decimal just below a bound is floored by the tick above it. -/
theorem entry_limit_price_on_grid_refused :
    (Aligned 100000 ∧ Aligned 130000 ∧
      entryLimitPrice 100000 (.fin (10 ^ 308)) 130000 = .error (.valueError "buffered decision_price must be finite")) ∧
    (Aligned 1999 ∧ Aligned 2595 ∧
      entryLimitPrice 1999 (.fin 5.00250125062531) 2595 =
        .error (.valueError "decision_price is inconsistent with the tick grid")) := by
  refine ⟨⟨?_, ?_, ?_⟩, ?_, ?_, ?_⟩ <;> decide +kernel

end Order
