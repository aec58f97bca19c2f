import KClosingAlpha.Lib.Bisect
import KClosingAlpha.Lib.Flt
import KClosingAlpha.Order.Contract
import KClosingAlpha.Paper.Book
import Mathlib.Data.Prod.Lex
import Mathlib.Data.List.Nodup
import Mathlib.Data.Rat.Floor
import Mathlib.Data.String.Basic
/-!
# Sizing — the quantities of the entry picks (`size_entry_orders`)

The picks are taken from the best prediction down, each against the cash the better ones have left.  What the fee and
the product with an allocation come to is taken as given: `Terms` says of them what the sizing rests on.
-/
namespace Order

open Py (Dict)
open Exc (raiseIf)

/-- Sizing input of one decision pick. -/
structure EntryPick where
  symbol : String
  allocation : Flt ℚ
  pred : Flt ℚ
  decisionPrice : Int
  limitPrice : Int

/-- The fee of one side, and the product of the capital with an allocation, exact or in a decimal context's digits. -/
structure Terms where
  sideFeeKrw : Int → Int
  product : Int → ℚ → ℚ
  fee_mono : Monotone sideFeeKrw
  fee_zero : sideFeeKrw 0 = 0
  product_nonneg : ∀ capital a, 0 ≤ capital → 0 < a → 0 ≤ product capital a

/-- The exact fee of the paper ledger and exact decimals. -/
def Terms.exact : Terms where
  sideFeeKrw := Paper.sideFeeKrw
  product capital a := capital * a
  fee_mono _ _ h := Int.ediv_le_ediv (by decide : (0 : Int) < 1000000000)
    (Int.mul_le_mul_of_nonneg_right h (by decide : (0 : Int) ≤ 36396))
  fee_zero := rfl
  product_nonneg _ _ hc ha := mul_nonneg (Int.cast_nonneg hc) ha.le

/-! ## The checks -/

def checkPick (seen : List String) (p : EntryPick) : Except OrderError Unit := do
  raiseIf (seen.contains p.symbol = true) (.valueError "duplicate symbol")
  raiseIf (p.allocation.isFinite = false ∨ Flt.le p.allocation (.fin 0) = true) (.valueError "allocation must be positive")
  raiseIf (p.limitPrice ≤ 0) (.valueError "limit_price must be positive")

def checkPicks : List String → List EntryPick → Except OrderError Unit
  | _, [] => pure ()
  | seen, p :: picks => do
    checkPick seen p
    checkPicks (p.symbol :: seen) picks

/-! ## The rank -/

/-- `_rank_key`: NaN after the numbers, which go by `-pred`; the two infinities are the first and the last number. -/
def rankKey (p : EntryPick) : ℕ ×ₗ (ℚ ×ₗ String) :=
  match p.pred with
  | .inf false => toLex (0, toLex (0, p.symbol))
  | .fin x => toLex (1, toLex (-x, p.symbol))
  | .inf true => toLex (2, toLex (0, p.symbol))
  | .nan => toLex (3, toLex (0, p.symbol))

/-- `sorted(picks, key=_rank_key)`. -/
def ranked (picks : List EntryPick) : List EntryPick := picks.mergeSort (fun a b => decide (rankKey a ≤ rankKey b))

/-! ## The quantities -/

section sizing

variable (t : Terms) (capital cap : Int)

/-- A notional and its fee. -/
def Terms.cost (notional : Int) : Int := notional + t.sideFeeKrw notional

/-- The allocation of a pick that passed the checks. -/
def EntryPick.share (p : EntryPick) : ℚ :=
  match p.allocation with
  | .fin a => a
  | _ => 0

def budget (p : EntryPick) : Int := min ⌊t.product capital p.share⌋ cap

/-- The search for the quantity of a pick. -/
def quantity (remaining : Int) (p : EntryPick) : Int :=
  let hi := budget t capital cap p / p.limitPrice
  bisect (fun mid => decide (t.cost (mid * p.limitPrice) ≤ remaining)) hi.toNat 0 hi

/-- One turn of the loop, on the quantities so far and the cash that remains. -/
def sizeNext (s : Dict Int × Int) (p : EntryPick) : Dict Int × Int :=
  let qty := quantity t capital cap s.2 p
  (s.1.set p.symbol qty, s.2 - t.cost (qty * p.limitPrice))

def sizeEntryOrders (picks : List EntryPick) : Except OrderError (Dict Int) := do
  raiseIf (capital < 0) (.valueError "capital_krw must be non-negative")
  raiseIf (cap ≤ 0) (.valueError "max_notional_per_order_krw must be positive")
  checkPicks [] picks
  return ((ranked picks).foldl (sizeNext t capital cap) ([], capital)).1

end sizing

/-! ## Rank order -/

/-- NaN predictions last, then from the best prediction down, ties by symbol. -/
def Before (a b : EntryPick) : Prop :=
  (a.pred.isNan = false ∧ b.pred.isNan = true) ∨ (a.pred.isNan = b.pred.isNan ∧ (Flt.lt b.pred a.pred = true ∨
    (Flt.lt a.pred b.pred = false ∧ Flt.lt b.pred a.pred = false ∧ a.symbol < b.symbol)))

theorem rankKey_lt_iff {a b : EntryPick} : rankKey a < rankKey b ↔ Before a b := by
  unfold rankKey Before
  cases ha : a.pred with
  | nan => rcases b.pred with _ | (_ | _) | y <;> simp [Prod.Lex.toLex_lt_toLex, Flt.isNan, Flt.lt]
  | inf m => cases m <;> rcases b.pred with _ | (_ | _) | y <;> simp [Prod.Lex.toLex_lt_toLex, Flt.isNan, Flt.lt]
  | fin x =>
    cases hb : b.pred with
    | nan => simp [Prod.Lex.toLex_lt_toLex, Flt.isNan]
    | inf n => cases n <;> simp [Prod.Lex.toLex_lt_toLex, Flt.isNan, Flt.lt]
    | fin y =>
      have heq : x = y ↔ y ≤ x ∧ x ≤ y := by rw [and_comm, le_antisymm_iff]
      simp [Prod.Lex.toLex_lt_toLex, Flt.isNan, Flt.lt, heq, and_assoc]

theorem rankKey_name (p : EntryPick) : (ofLex (ofLex (rankKey p)).2).2 = p.symbol := by
  unfold rankKey
  rcases p.pred with _ | (_ | _) | x <;> rfl

theorem rankKey_symbol {a b : EntryPick} (h : rankKey a = rankKey b) : a.symbol = b.symbol := by
  rw [← rankKey_name a, h, rankKey_name]

theorem ranked_perm (picks : List EntryPick) : (ranked picks).Perm picks := List.mergeSort_perm _ _

theorem ranked_sorted (picks : List EntryPick) : (ranked picks).Pairwise (fun a b => rankKey a ≤ rankKey b) := by
  refine (List.pairwise_mergeSort (fun a b c hab hbc => ?_) (fun a b => ?_) picks).imp of_decide_eq_true
  · exact decide_eq_true ((of_decide_eq_true hab).trans (of_decide_eq_true hbc))
  · rcases le_total (rankKey a) (rankKey b) with h | h <;> simp [h]

/-- **Picks of different symbols are in strict rank order**, whatever order they were given in. -/
theorem ranked_before {picks : List EntryPick} (h : (picks.map (·.symbol)).Nodup) : (ranked picks).Pairwise Before := by
  have hnodup : ((ranked picks).map (·.symbol)).Nodup := ((ranked_perm picks).map _).nodup_iff.2 h
  rw [List.Nodup, List.pairwise_map] at hnodup
  refine ((ranked_sorted picks).and hnodup).imp (fun {a b} hab => rankKey_lt_iff.1 (lt_of_le_of_ne hab.1 ?_))
  exact fun heq => hab.2 (rankKey_symbol heq)

theorem ranked_eq_of_perm {picks picks' : List EntryPick} (h : (picks.map (·.symbol)).Nodup) (hp : picks'.Perm picks) :
    ranked picks' = ranked picks := by
  have hperm : (ranked picks').Perm (ranked picks) := (ranked_perm picks').trans (hp.trans (ranked_perm picks).symm)
  have hnodup : ((ranked picks).map (·.symbol)).Nodup := ((ranked_perm picks).map _).nodup_iff.2 h
  refine hperm.eq_of_pairwise (fun a b ha hb hab hba => ?_) (ranked_sorted picks') (ranked_sorted picks)
  have hsame := rankKey_symbol (le_antisymm hab hba)
  exact List.inj_on_of_nodup_map hnodup (hperm.mem_iff.1 ha) hb hsame

/-! ## One pick -/

/-- What the checks leave: picks of different symbols with positive allocations and prices. -/
structure ValidPicks (picks : List EntryPick) (capital cap : Int) : Prop where
  capital_nonneg : 0 ≤ capital
  cap_pos : 0 < cap
  symbols : (picks.map (·.symbol)).Nodup
  allocations : ∀ p ∈ picks, ∃ a, p.allocation = .fin a ∧ 0 < a
  prices : ∀ p ∈ picks, 0 < p.limitPrice

section greedy

variable {t : Terms} {capital cap left : Int} {p : EntryPick} {picks : List EntryPick}

theorem Terms.cost_mono (t : Terms) : Monotone t.cost := fun _ _ h => Int.add_le_add h (t.fee_mono h)

theorem Terms.cost_zero (t : Terms) : t.cost 0 = 0 := by rw [Terms.cost, t.fee_zero, Int.add_zero]

theorem budget_nonneg (hcap : 0 < cap) (hc : 0 ≤ capital) (ha : ∃ a, p.allocation = .fin a ∧ 0 < a) :
    0 ≤ budget t capital cap p := by
  obtain ⟨a, heq, hpos⟩ := ha
  have hshare : p.share = a := by rw [EntryPick.share, heq]
  exact le_min (Int.floor_nonneg.2 (t.product_nonneg capital _ hc (hshare ▸ hpos))) hcap.le

/-- The quantities a pick may have: within its budget, and with the fee within the cash left. -/
def Affordable (t : Terms) (capital cap left : Int) (p : EntryPick) : Set Int :=
  {q | 0 ≤ q ∧ q * p.limitPrice ≤ budget t capital cap p ∧
    q * p.limitPrice + t.sideFeeKrw (q * p.limitPrice) ≤ left}

/-- **The search finds the greatest of them.** -/
theorem quantity_isGreatest (hprice : 0 < p.limitPrice) (hb : 0 ≤ budget t capital cap p) (hl : 0 ≤ left) :
    IsGreatest (Affordable t capital cap left p) (quantity t capital cap left p) := by
  have hanti : Antitone (fun q => decide (t.cost (q * p.limitPrice) ≤ left)) := fun a b hab => by
    rw [Bool.le_iff_imp, decide_eq_true_iff, decide_eq_true_iff]
    exact (t.cost_mono (Int.mul_le_mul_of_nonneg_right hab hprice.le)).trans
  have hhi : 0 ≤ budget t capital cap p / p.limitPrice := Int.ediv_nonneg hb hprice.le
  have hzero : decide (t.cost (0 * p.limitPrice) ≤ left) = true := by
    rw [Int.zero_mul, t.cost_zero]
    exact decide_eq_true hl
  have hfound := bisect_isGreatest hanti (by omega : budget t capital cap p / p.limitPrice - 0 ≤ ↑(budget t capital cap p / p.limitPrice).toNat) hhi hzero
  constructor
  · refine ⟨?_, (Int.le_ediv_iff_mul_le hprice).1 hfound.1.1, of_decide_eq_true hfound.1.2⟩
    exact hfound.2 ⟨hhi, hzero⟩
  · intro q hq
    exact hfound.2 ⟨(Int.le_ediv_iff_mul_le hprice).2 hq.2.1, decide_eq_true hq.2.2⟩

/-! ## The loop -/

/-- The quantities of picks in rank order, with the cash left before the first. -/
def allotted (t : Terms) (capital cap : Int) : Int → List EntryPick → Dict Int
  | _, [] => []
  | left, p :: picks =>
    (p.symbol, quantity t capital cap left p) ::
      allotted t capital cap (left - t.cost (quantity t capital cap left p * p.limitPrice)) picks

/-- What picks cost at these quantities. -/
def spent (t : Terms) (result : Dict Int) (picks : List EntryPick) : Int :=
  (picks.map (fun p => result.getD p.symbol 0 * p.limitPrice + t.sideFeeKrw (result.getD p.symbol 0 * p.limitPrice))).sum

theorem foldl_sizeNext : ∀ {picks : List EntryPick} {done : Dict Int} {left : Int},
    (done.map Prod.fst ++ picks.map (·.symbol)).Nodup →
      (picks.foldl (sizeNext t capital cap) (done, left)).1 = done ++ allotted t capital cap left picks
  | [], done, left, _ => by rw [List.foldl_nil, allotted, List.append_nil]
  | p :: picks, done, left, hnd => by
    have hnew : p.symbol ∉ done.map Prod.fst := by
      rw [List.map_cons, List.nodup_append] at hnd
      exact fun hm => hnd.2.2 _ hm _ List.mem_cons_self rfl
    rw [List.foldl_cons, sizeNext, Dict.set_of_not_mem hnew, foldl_sizeNext, allotted]
    · rw [List.append_assoc]
      rfl
    · simpa using hnd

theorem getD_cons_self (name : String) (q : Int) (rest : Dict Int) : Dict.getD ((name, q) :: rest) name 0 = q := by
  simp [Dict.getD]

theorem spent_cons_of_not_mem {name : String} {q : Int} {rest : Dict Int} (h : name ∉ picks.map (·.symbol)) :
    spent t ((name, q) :: rest) picks = spent t rest picks := by
  unfold spent
  refine congrArg List.sum (List.map_congr_left (fun p hp => ?_))
  have hne : (p.symbol == name) = false := by
    rw [beq_eq_false_iff_ne]
    exact fun heq => h (heq ▸ List.mem_map_of_mem hp)
  simp [Dict.getD, List.lookup_cons, hne]

/-- What the loop keeps: cash, and for each pick the greatest quantity the picks before it leave cash for. -/
theorem allotted_greedy (hcap : 0 < cap) (hc : 0 ≤ capital) : ∀ {picks : List EntryPick} {left : Int},
    (picks.map (·.symbol)).Nodup → (∀ p ∈ picks, ∃ a, p.allocation = .fin a ∧ 0 < a) → (∀ p ∈ picks, 0 < p.limitPrice) →
      0 ≤ left → spent t (allotted t capital cap left picks) picks ≤ left ∧ ∀ before p after, picks = before ++ p :: after →
        IsGreatest (Affordable t capital cap (left - spent t (allotted t capital cap left picks) before) p)
          ((allotted t capital cap left picks).getD p.symbol 0)
  | [], left, _, _, _, hl => ⟨hl, fun before p after h => by simp at h⟩
  | x :: picks, left, hnd, ha, hprice, hl => by
    obtain ⟨hx, hnd'⟩ := List.nodup_cons.1 hnd
    have hgreatest := quantity_isGreatest (hprice x List.mem_cons_self)
      (budget_nonneg (t := t) hcap hc (ha x List.mem_cons_self)) hl
    have hcost : t.cost (quantity t capital cap left x * x.limitPrice) ≤ left := hgreatest.1.2.2
    obtain ⟨htotal, hrest⟩ := allotted_greedy hcap hc hnd' (fun p hp => ha p (List.mem_cons_of_mem _ hp))
      (fun p hp => hprice p (List.mem_cons_of_mem _ hp)) (Int.sub_nonneg.2 hcost)
    have hhead : ∀ ps : List EntryPick, x.symbol ∉ ps.map (·.symbol) →
        spent t (allotted t capital cap left (x :: picks)) (x :: ps) =
          t.cost (quantity t capital cap left x * x.limitPrice) +
            spent t (allotted t capital cap (left - t.cost (quantity t capital cap left x * x.limitPrice)) picks) ps := by
      intro ps hps
      rw [allotted, spent, List.map_cons, List.sum_cons, getD_cons_self]
      exact congrArg _ (spent_cons_of_not_mem hps)
    constructor
    · rw [hhead picks hx]
      omega
    · intro before p after heq
      cases before with
      | nil =>
        obtain ⟨rfl, rfl⟩ := List.cons.inj heq
        rw [allotted, getD_cons_self]
        simpa [spent] using hgreatest
      | cons b before =>
        rw [List.cons_append] at heq
        obtain ⟨rfl, hpicks⟩ := List.cons.inj heq
        have hother : ∀ y ∈ before ++ p :: after, y.symbol ≠ x.symbol := fun y hy h =>
          hx (List.mem_map.2 ⟨y, hpicks ▸ hy, h⟩)
        have hb : x.symbol ∉ before.map (·.symbol) := fun hm => by
          obtain ⟨y, hy, h⟩ := List.mem_map.1 hm
          exact hother y (List.mem_append_left _ hy) h
        have hp : (p.symbol == x.symbol) = false :=
          beq_eq_false_iff_ne.2 (hother p (List.mem_append_right _ List.mem_cons_self))
        have htail := hrest before p after hpicks
        rw [hhead before hb, ← Int.sub_sub]
        rw [allotted, Dict.getD, List.lookup_cons, hp]
        exact htail

/-! ## The whole function -/

theorem checkPicks_ok : ∀ {picks : List EntryPick} {seen : List String}, (seen ++ picks.map (·.symbol)).Nodup →
    (∀ p ∈ picks, ∃ a, p.allocation = .fin a ∧ 0 < a) → (∀ p ∈ picks, 0 < p.limitPrice) → checkPicks seen picks = .ok ()
  | [], _, _, _, _ => rfl
  | p :: picks, seen, hnd, ha, hprice => by
    have hpick : checkPick seen p = .ok () := by
      obtain ⟨a, heq, hpos⟩ := ha p List.mem_cons_self
      have hprice' := hprice p List.mem_cons_self
      simp only [checkPick, Exc.bind_eq_ok, Exc.raiseIf_eq_ok]
      refine ⟨(), fun hm => ?_, (), by simp [heq, hpos], by omega⟩
      exact (List.nodup_append.1 hnd).2.2 _ (List.contains_iff_mem.1 hm) _ List.mem_cons_self rfl
    rw [checkPicks, hpick]
    refine checkPicks_ok ?_ (fun q hq => ha q (List.mem_cons_of_mem _ hq)) (fun q hq => hprice q (List.mem_cons_of_mem _ hq))
    rw [List.map_cons] at hnd
    exact (List.perm_middle.nodup_iff).1 hnd

theorem sizeEntryOrders_eq (h : ValidPicks picks capital cap) :
    sizeEntryOrders t capital cap picks = .ok (allotted t capital cap capital (ranked picks)) := by
  have hnd : ((ranked picks).map (·.symbol)).Nodup := ((ranked_perm picks).map _).nodup_iff.2 h.symbols
  have hcap := h.cap_pos
  have hc := h.capital_nonneg
  have hcheck : checkPicks [] picks = .ok () := checkPicks_ok (by simpa using h.symbols) h.allocations h.prices
  have hfold := @foldl_sizeNext t capital cap (ranked picks) [] capital (by simpa using hnd)
  rw [List.nil_append] at hfold
  unfold sizeEntryOrders
  rw [Exc.raiseIf, if_neg (by omega), Exc.raiseIf, if_neg (by omega), hcheck, hfold]
  rfl

theorem ValidPicks.of_perm {picks' : List EntryPick} (h : ValidPicks picks capital cap) (hp : picks'.Perm picks) :
    ValidPicks picks' capital cap :=
  ⟨h.capital_nonneg, h.cap_pos, (hp.map _).nodup_iff.2 h.symbols, fun p hm => h.allocations p (hp.mem_iff.1 hm),
    fun p hm => h.prices p (hp.mem_iff.1 hm)⟩

/-- **The sizing is greedy-optimal and within cash.**  In rank order each pick gets the greatest quantity its budget and
the cash the better picks leave allow, all of it costs no more than the capital, and the order the picks are given in
does not matter. -/
theorem size_entry_orders_greedy (t : Terms) (h : ValidPicks picks capital cap) :
    ∃ result, sizeEntryOrders t capital cap picks = .ok result ∧
      ((ranked picks).Perm picks ∧ (ranked picks).Pairwise Before) ∧
      (∀ before p after, ranked picks = before ++ p :: after →
        IsGreatest (Affordable t capital cap (capital - spent t result before) p) (result.getD p.symbol 0)) ∧
      spent t result picks ≤ capital ∧
      ∀ picks', picks'.Perm picks → sizeEntryOrders t capital cap picks' = .ok result := by
  have hperm := ranked_perm picks
  have hgreedy := @allotted_greedy t capital cap h.cap_pos h.capital_nonneg (ranked picks) capital
    ((hperm.map _).nodup_iff.2 h.symbols) (fun p hp => h.allocations p (hperm.mem_iff.1 hp))
    (fun p hp => h.prices p (hperm.mem_iff.1 hp)) h.capital_nonneg
  refine ⟨allotted t capital cap capital (ranked picks), sizeEntryOrders_eq h, ⟨hperm, ranked_before h.symbols⟩, hgreedy.2,
    ?_, fun picks' hp => ?_⟩
  · have hsame : spent t (allotted t capital cap capital (ranked picks)) (ranked picks) =
        spent t (allotted t capital cap capital (ranked picks)) picks := (hperm.map _).sum_eq
    exact hsame ▸ hgreedy.1
  · rw [sizeEntryOrders_eq (h.of_perm hp), ranked_eq_of_perm h.symbols hp]

end greedy

namespace Sample

/-- Two picks of one price: the better one takes what the fee leaves of half the capital. -/
def twoPicks : List EntryPick :=
  [⟨"000660", .fin (1 / 2), .nan, 60000, 60000⟩, ⟨"005930", .fin (1 / 2), .fin 1, 60000, 60000⟩]

end Sample

theorem size_entry_orders_greedy_two : ∃ result,
    sizeEntryOrders Terms.exact 1000000 1000000 Sample.twoPicks = .ok result ∧ spent Terms.exact result Sample.twoPicks ≤ 1000000 := by
  have hvalid : ValidPicks Sample.twoPicks 1000000 1000000 := by
    refine ⟨by decide, by decide, by decide, fun p hp => ?_, fun p hp => ?_⟩ <;>
      rcases List.mem_cons.1 hp with rfl | hp
    · exact ⟨1 / 2, rfl, by norm_num⟩
    · exact ⟨1 / 2, by rw [List.mem_singleton.1 hp], by norm_num⟩
    · decide
    · rw [List.mem_singleton.1 hp]
      decide
  obtain ⟨result, hok, -, -, hspent, -⟩ := size_entry_orders_greedy Terms.exact hvalid
  exact ⟨result, hok, hspent⟩

end Order
