import KClosingAlpha.Daily.PanelRebuild
import Mathlib.Algebra.Field.Rat
import Mathlib.Algebra.Order.Ring.Rat
import Mathlib.Tactic.Tauto
/-!
# BackAdjust — the adjusted panel does not depend on how history arrives

For the rows of a symbol in the order of their dates, both functions scale each row by the product of the factors of
the rows after it (`adjusted`), and a factor reads the row before as it was delivered: the last stored row of a symbol
has not been scaled yet (`getLast?_adjusted`).  A merge therefore takes the panel derived from what was delivered to
the panel derived from that and the new rows (`merge_holds`).
-/
namespace PriceIngest

set_option linter.unusedSectionVars false

open Flt (nan fin)
open Grouped (group sortRows perGroup)
open Series (shift laterProd)

/-! ## The trading day before -/

theorem takeWhile_lt_eq_filter : ∀ {l : List Day} (_ : l.Pairwise (· ≤ ·)) (d : Day), l.takeWhile (· < d) = l.filter (· < d)
  | [], _, _ => rfl
  | x :: l, h, d => by
    rw [List.pairwise_cons] at h
    by_cases hx : x < d
    · rw [List.takeWhile_cons_of_pos (by simpa using hx), List.filter_cons_of_pos (by simpa using hx),
        takeWhile_lt_eq_filter h.2 d]
    · have hnone : l.filter (· < d) = [] :=
        List.filter_eq_nil_iff.2 (fun y hy hlt => hx (lt_of_le_of_lt (h.1 y hy) (of_decide_eq_true hlt)))
      rw [List.takeWhile_cons_of_neg (by simpa using hx), List.filter_cons_of_neg (by simpa using hx), hnone]

theorem prevTrading_eq {cal : List Day} (h : cal.Pairwise (· ≤ ·)) (d : Day) : prevTrading cal d = (cal.filter (· < d)).getLast? := by
  rw [← takeWhile_lt_eq_filter h d]
  dsimp only [prevTrading]
  have hsplit : cal = cal.takeWhile (· < d) ++ cal.dropWhile (· < d) := List.takeWhile_append_dropWhile.symm
  split_ifs with hpos
  · rw [List.getLast?_eq_getElem?]
    nth_rewrite 1 [hsplit]
    exact List.getElem?_append_left (by omega)
  · rw [List.length_eq_zero_iff.1 (Nat.eq_zero_of_not_pos hpos)]
    rfl

theorem getLast?_eq_some_iff_max : ∀ {l : List Day} (_ : l.Pairwise (· ≤ ·)) (a : Day),
    l.getLast? = some a ↔ a ∈ l ∧ ∀ b ∈ l, b ≤ a := by
  intro l h a
  constructor
  · intro ha
    obtain ⟨init, rfl⟩ := List.getLast?_eq_some_iff.1 ha
    refine ⟨by simp, fun b hb => ?_⟩
    rcases List.mem_append.1 hb with hb | hb
    · exact (List.pairwise_append.1 h).2.2 b hb a (by simp)
    · exact le_of_eq (List.mem_singleton.1 hb)
  · rintro ⟨ha, hmax⟩
    cases hl : l.getLast? with
    | none => rw [List.getLast?_eq_none_iff.1 hl] at ha; cases ha
    | some c =>
      obtain ⟨init, rfl⟩ := List.getLast?_eq_some_iff.1 hl
      have hca : c ≤ a := hmax c (by simp)
      have hac : a ≤ c := by
        rcases List.mem_append.1 ha with ha | ha
        · exact (List.pairwise_append.1 h).2.2 a ha c (by simp)
        · exact le_of_eq (List.mem_singleton.1 ha)
      rw [le_antisymm hac hca]

/-- Sorted calendars of the same days have the same trading day before any date. -/
theorem prevTrading_congr {cal cal' : List Day} (h : cal.Pairwise (· ≤ ·)) (h' : cal'.Pairwise (· ≤ ·))
    (hmem : ∀ d, d ∈ cal ↔ d ∈ cal') (d : Day) : prevTrading cal d = prevTrading cal' d := by
  rw [prevTrading_eq h, prevTrading_eq h']
  refine Option.ext (fun a => ?_)
  rw [getLast?_eq_some_iff_max (h.filter _), getLast?_eq_some_iff_max (h'.filter _)]
  simp only [List.mem_filter, hmem]

variable {K : Type} [Field K] [LinearOrder K] [IsStrictOrderedRing K]

/-! ## The factor of a row -/

theorem followsTradingDay_congr {cal cal' : List Day} (h : ∀ d, prevTrading cal d = prevTrading cal' d) (p : Option Day) (d : Day) :
    followsTradingDay cal p d = followsTradingDay cal' p d := by
  unfold followsTradingDay
  rw [h]

theorem mergeFactor_old (cal : List Day) (p : Option (KrxRow K)) (r : KrxRow K) : mergeFactor cal false p r = fin 1 := rfl

/-- A new row has the factor of the rebuild. -/
theorem mergeFactor_new (cal : List Day) (p : Option (KrxRow K)) (r : KrxRow K) :
    mergeFactor cal true p r = rebuildFactor cal p r := by
  have hevent : mergeEvent cal true p r = rebuildEvent cal p r := by
    simp only [mergeEvent, rebuildEvent, basePriceJump, Bool.true_and, Bool.and_assoc]
  rw [mergeFactor, hevent, rebuildFactor]

/-- **The factor of a row is a positive number.** -/
theorem rebuildFactor_pos (cal : List Day) {p : Option (KrxRow K)} {r : KrxRow K} (hp : ∀ q ∈ p, q.Priced) (hr : r.Priced) :
    ∃ k, rebuildFactor cal p r = fin k ∧ 0 < k := by
  unfold rebuildFactor
  split_ifs with hevent
  · cases p with
    | none => simp [rebuildEvent, followsTradingDay] at hevent
    | some q =>
      obtain ⟨⟨c, hc, hcpos⟩, -⟩ := hp q rfl
      obtain ⟨-, b, hb, hbpos⟩ := hr
      refine ⟨b / c, ?_, div_pos hbpos hcpos⟩
      rw [Option.map_some, Option.getD_some, hc, hb, Flt.fin_div_fin _ hcpos.ne']
  · exact ⟨1, rfl, one_pos⟩

/-- The factors of rows after the row `d` of their symbol. -/
def factorsAfter (cal : List Day) (d : Option (KrxRow K)) (g : List (KrxRow K)) : List (Flt K) :=
  List.zipWith (rebuildFactor cal) (shift d (g.map some)) g

theorem factorsAfter_cons (cal : List Day) (d : Option (KrxRow K)) (r : KrxRow K) (g : List (KrxRow K)) :
    factorsAfter cal d (r :: g) = rebuildFactor cal d r :: factorsAfter cal (some r) g := by
  rw [factorsAfter, List.map_cons, Series.shift_cons, List.zipWith_cons_cons, factorsAfter]

theorem factorsAfter_append (cal : List Day) (b : List (KrxRow K)) : ∀ (g : List (KrxRow K)) (d : Option (KrxRow K)),
    factorsAfter cal d (g ++ b) = factorsAfter cal d g ++ factorsAfter cal (g.getLast?.or d) b
  | [], d => by simp [factorsAfter]
  | r :: g, d => by
    rw [List.cons_append, factorsAfter_cons, factorsAfter_cons, factorsAfter_append cal b g, List.cons_append]
    congr 3
    cases g with
    | nil => rfl
    | cons q g => rw [List.getLast?_cons_cons, List.getLast?_cons]; rfl

theorem factorsAfter_fins (cal : List Day) : ∀ {g : List (KrxRow K)} {d : Option (KrxRow K)}, (∀ q ∈ d, q.Priced) →
    (∀ r ∈ g, r.Priced) → ∃ ks : List K, factorsAfter cal d g = ks.map fin ∧ ∀ k ∈ ks, 0 < k
  | [], _, _, _ => ⟨[], rfl, by simp⟩
  | r :: g, d, hd, hg => by
    obtain ⟨k, hk, hpos⟩ := rebuildFactor_pos cal hd (hg r List.mem_cons_self)
    obtain ⟨ks, hks, hkpos⟩ := factorsAfter_fins cal (fun q hq => Option.mem_some.1 hq ▸ hg r List.mem_cons_self)
      (fun q hq => hg q (List.mem_cons_of_mem _ hq))
    exact ⟨k :: ks, by rw [factorsAfter_cons, hk, hks, List.map_cons], List.forall_mem_cons.2 ⟨hpos, hkpos⟩⟩

/-! ## The rows of a symbol -/

/-- A row as it is delivered, its close kept as the raw one. -/
def KrxRow.priced (r : KrxRow K) : PricedRow K := { r with closeRaw := r.close }

/-- Rows scaled by the products of the factors that come later. -/
def adjusted (ks : List K) (l : List (PricedRow K)) : List (PricedRow K) :=
  List.zipWith (fun k r => PricedRow.scaled (fin k) r) (laterProd ks) l

@[simp] theorem PricedRow.scaled_one (r : PricedRow K) : r.scaled (fin 1) = r := by
  simp [scaled]

theorem PricedRow.scaled_scaled {a b : K} (ha : 0 < a) (hb : 0 < b) (r : PricedRow K) :
    (r.scaled (fin a)).scaled (fin b) = r.scaled (fin (a * b)) := by
  simp [scaled, Flt.mul_mul_fin ha hb]

theorem PanelRow.scaled_one (r : PanelRow K) : r.scaled (fin 1) = r := by
  rw [scaled, PricedRow.scaled_one]

@[simp] theorem PanelRow.key_scaled (k : Flt K) (r : PanelRow K) : (r.scaled k).key = r.key := rfl

theorem adjusted_cons (k : K) (ks : List K) (r : PricedRow K) (l : List (PricedRow K)) :
    adjusted (k :: ks) (r :: l) = r.scaled (fin ks.prod) :: adjusted ks l := rfl

theorem map_key_adjusted : ∀ {ks : List K} {l : List (PricedRow K)}, ks.length = l.length →
    (adjusted ks l).map PricedRow.key = l.map PricedRow.key
  | [], [], _ => rfl
  | [], r :: l, h => absurd h.symm (Nat.succ_ne_zero _)
  | k :: ks, [], h => absurd h (Nat.succ_ne_zero _)
  | k :: ks, r :: l, h => by
    have hlen : ks.length = l.length := Nat.succ.inj h
    rw [adjusted_cons, List.map_cons, List.map_cons, map_key_adjusted hlen]
    rfl

/-- What is delivered later scales all that is there by one number. -/
theorem adjusted_append {ks kb : List K} {l m : List (PricedRow K)} (hlen : ks.length = l.length) (hks : ∀ k ∈ ks, 0 < k)
    (hkb : ∀ k ∈ kb, 0 < k) :
    adjusted (ks ++ kb) (l ++ m) = (adjusted ks l).map (PricedRow.scaled (fin kb.prod)) ++ adjusted kb m := by
  have hpos : 0 < kb.prod := List.prod_pos hkb
  rw [adjusted, Series.laterProd_append, List.zipWith_append (by simp [hlen])]
  congr 1
  rw [adjusted, List.zipWith_map_left, List.map_zipWith]
  have hall := Series.laterProd_pos hks
  generalize laterProd ks = ps at hall
  clear hlen
  induction ps generalizing l with
  | nil => rfl
  | cons p ps ih =>
    cases l with
    | nil => rfl
    | cons r l =>
      rw [List.zipWith_cons_cons, List.zipWith_cons_cons, ih (fun q hq => hall q (List.mem_cons_of_mem _ hq)),
        PricedRow.scaled_scaled (hall p List.mem_cons_self) hpos]

/-- **The last row of a symbol has not been scaled.** -/
theorem getLast?_adjusted {ks : List K} {l : List (PricedRow K)} (hlen : ks.length = l.length) :
    (adjusted ks l).getLast? = l.getLast? := by
  rcases List.eq_nil_or_concat l with rfl | ⟨l, r, rfl⟩
  · rw [List.length_eq_zero_iff.1 hlen]
    rfl
  · rcases List.eq_nil_or_concat ks with rfl | ⟨ks, k, rfl⟩
    · simp at hlen
    · have hlen' : ((laterProd ks).map (· * k)).length = l.length := by simpa using hlen
      rw [adjusted, List.concat_eq_append, List.concat_eq_append, Series.laterProd_concat, List.zipWith_append hlen']
      simp

/-- The rebuild scales the rows of a symbol by the factors that come later. -/
theorem deriveSymbol_factorsSymbol {cal : List Day} {g : List (KrxRow K)} {ks : List K}
    (hks : factorsAfter cal none g = ks.map fin) (hpos : ∀ k ∈ ks, 0 < k) :
    deriveSymbol (factorsSymbol cal g) = adjusted ks (g.map KrxRow.priced) := by
  have hfactor : (factorsSymbol cal g).map FactorRow.factor = ks.map fin := by
    rw [factorsSymbol, List.map_zipWith, ← hks]
    rfl
  have hrow : (factorsSymbol cal g).map FactorRow.toPricedRow = g.map KrxRow.priced := by
    rw [factorsSymbol, List.map_zipWith]
    exact Series.zipWith_snd KrxRow.priced (by simp)
  have hscaled : (fun (s : Flt K) (r : FactorRow K) => if s ≠ fin 1 then r.toPricedRow.scaled s else r.toPricedRow)
      = fun s r => r.toPricedRow.scaled s := by
    funext s r
    split_ifs with hs
    · rfl
    · rw [not_not.1 hs, PricedRow.scaled_one]
  dsimp only [deriveSymbol]
  rw [hfactor, hscaled, Series.zipWith_div_cumprod_reverse (fun k hk => (hpos k hk).ne'), adjusted, ← hrow,
    List.zipWith_map_left, List.zipWith_map_right]

/-- A merge scales a row of a symbol by the scale computed for it. -/
theorem mergeSymbol_row (cal : List Day) (isNew : PanelRow K → Bool) (g : List (PanelRow K)) :
    (mergeSymbol cal isNew g).map Merged.row
      = let factor := List.zipWith (fun p r => mergeFactor cal (isNew r) p r.toKrxRow)
          (shift none (g.map (fun r => some r.toKrxRow))) g
        List.zipWith (fun s r => PanelRow.scaled s r) (List.zipWith Flt.div (Series.cumprod factor.reverse).reverse factor) g := by
  have hscaled : (fun (sr : Flt K × PanelRow K) => if sr.1 ≠ fin 1 then sr.2.scaled sr.1 else sr.2) = fun sr => sr.2.scaled sr.1 := by
    funext sr
    split_ifs with hs
    · rfl
    · rw [not_not.1 hs, PanelRow.scaled_one]
  dsimp only [mergeSymbol]
  rw [List.map_zipWith, Series.zipWith_snd (fun sr : Flt K × PanelRow K => if sr.1 ≠ fin 1 then sr.2.scaled sr.1 else sr.2)
    (by simp [Series.cumprod]), hscaled, List.zip, List.map_zipWith]

theorem mergeFactors_old {cal : List Day} {isNew : PanelRow K → Bool} : ∀ {P : List (PanelRow K)} {ps : List (Option (KrxRow K))},
    (∀ r ∈ P, isNew r = false) → P.length ≤ ps.length →
    List.zipWith (fun p r => mergeFactor cal (isNew r) p r.toKrxRow) ps P = (List.replicate P.length (1 : K)).map fin
  | [], ps, _, _ => List.zipWith_nil_right
  | r :: P, [], _, hlen => absurd hlen (Nat.not_succ_le_zero _)
  | r :: P, p :: ps, hP, hlen => by
    rw [List.zipWith_cons_cons, hP r List.mem_cons_self, mergeFactor_old,
      mergeFactors_old (fun q hq => hP q (List.mem_cons_of_mem _ hq)) (Nat.le_of_succ_le_succ hlen)]
    rfl

theorem mergeFactors_new {cal : List Day} {isNew : PanelRow K → Bool} : ∀ {B : List (PanelRow K)} {d : Option (KrxRow K)},
    (∀ r ∈ B, isNew r = true) →
    List.zipWith (fun p r => mergeFactor cal (isNew r) p r.toKrxRow) (shift d (B.map (fun r => some r.toKrxRow))) B
      = factorsAfter cal d (B.map (fun r => r.toKrxRow))
  | [], _, _ => rfl
  | r :: B, d, hB => by
    rw [List.map_cons, List.map_cons, Series.shift_cons, List.zipWith_cons_cons, factorsAfter_cons,
      hB r List.mem_cons_self, mergeFactor_new, mergeFactors_new (fun q hq => hB q (List.mem_cons_of_mem _ hq))]

/-- **A merge scales the stored rows of a symbol by one number, and its new rows by the factors that come later.** -/
theorem mergeSymbol_append {cal : List Day} {isNew : PanelRow K → Bool} {P B : List (PanelRow K)} {kb : List K}
    (hP : ∀ r ∈ P, isNew r = false) (hB : ∀ r ∈ B, isNew r = true)
    (hkb : factorsAfter cal (P.getLast?.map (fun r => r.toKrxRow)) (B.map (fun r => r.toKrxRow)) = kb.map fin)
    (hpos : ∀ k ∈ kb, 0 < k) :
    (mergeSymbol cal isNew (P ++ B)).map Merged.row
      = P.map (PanelRow.scaled (fin kb.prod)) ++ List.zipWith (fun k r => PanelRow.scaled (fin k) r) (laterProd kb) B := by
  have hlast : (P.map (fun r => some r.toKrxRow)).getLastD none = P.getLast?.map (fun r => r.toKrxRow) := by
    rw [List.getLastD_eq_getLast?, List.getLast?_map]
    cases P.getLast? <;> rfl
  have hones : ∀ k ∈ List.replicate P.length (1 : K) ++ kb, k ≠ 0 := by
    intro k hk
    rcases List.mem_append.1 hk with hk | hk
    · rw [List.eq_of_mem_replicate hk]
      exact one_ne_zero
    · exact (hpos k hk).ne'
  rw [mergeSymbol_row, List.map_append, Series.shift_append, hlast, List.zipWith_append (by simp),
    mergeFactors_old hP (by simp), mergeFactors_new hB, hkb, ← List.map_append]
  dsimp only
  rw [Series.zipWith_div_cumprod_reverse hones, Series.laterProd_append, Series.laterProd_replicate_one, List.map_append,
    List.zipWith_append (by simp), List.zipWith_map_left, List.zipWith_map_left]
  congr 1
  · rw [Series.zipWith_replicate_left]
    simp only [one_mul]
  · rw [List.zipWith_map_left]

theorem map_key_mergeSymbol (cal : List Day) (isNew : PanelRow K → Bool) (g : List (PanelRow K)) :
    (mergeSymbol cal isNew g).map (fun m => m.row.key) = g.map PanelRow.key := by
  have hmap : (mergeSymbol cal isNew g).map (fun m => m.row.key) = ((mergeSymbol cal isNew g).map Merged.row).map PanelRow.key := by
    rw [List.map_map]
    rfl
  rw [hmap, mergeSymbol_row]
  dsimp only
  rw [List.map_zipWith]
  exact Series.zipWith_snd PanelRow.key (by simp [Series.cumprod])

/-! ## A merge -/

/-- The rows of a symbol in a panel. -/
abbrev ofSymbol (s : String) (P : List (PanelRow K)) : List (PanelRow K) := group (fun r => r.symbol) s P

/-- A panel is the one derived from the rows delivered so far. -/
structure Holds (cal : List Day) (D : List (KrxRow K)) (P : List (PanelRow K)) : Prop where
  keys : P.map PanelRow.key = (sortRows KrxRow.key D).map KrxRow.key
  rows : ∀ s, (ofSymbol s P).map (fun r => r.toPricedRow)
    = deriveSymbol (factorsSymbol cal (group KrxRow.symbol s (sortRows KrxRow.key D)))

/-- Rows that may be merged into the panel of the rows `D`: they extend the tails of their symbols. -/
structure Extends (D : List (KrxRow K)) (B : List (PanelRow K)) : Prop where
  priced : ∀ r ∈ D ++ B.map (fun r => r.toKrxRow), r.Priced
  nodup : ((D ++ B.map (fun r => r.toKrxRow)).map KrxRow.key).Nodup
  raw : ∀ r ∈ B, r.closeRaw = r.close ∨ r.closeRaw = nan
  later : ∀ d ∈ D, ∀ r ∈ B, d.symbol = r.symbol → d.date < r.date

theorem PanelRow.filled_eq_self {r : PanelRow K} (h : r.closeRaw.isNan = false) : r.filled = r := by
  rw [filled, Flt.fillna, h]
  rfl

variable {cal : List Day} {D : List (KrxRow K)} {P B : List (PanelRow K)}

theorem Extends.filled_priced (h : Extends D B) : ∀ r ∈ B, r.filled.toPricedRow = r.toKrxRow.priced := by
  intro r hr
  obtain ⟨⟨c, hc, -⟩, -⟩ := h.priced r.toKrxRow (List.mem_append_right _ (List.mem_map_of_mem hr))
  have hfill : r.closeRaw.fillna r.close = r.close := by
    rcases h.raw r hr with hraw | hraw
    · rw [hraw, hc]
      rfl
    · rw [hraw]
      rfl
  rw [PanelRow.filled, KrxRow.priced, hfill]

theorem exists_factors (h : ∀ r ∈ D, r.Priced) (cal : List Day) (s : String) :
    ∃ ks : List K, factorsAfter cal none (group KrxRow.symbol s (sortRows KrxRow.key D)) = ks.map fin ∧ ∀ k ∈ ks, 0 < k :=
  factorsAfter_fins cal (by simp) (fun r hr => h r (Grouped.mem_sortRows.1 (Grouped.mem_group.1 hr).1))

theorem mem_adjusted {ks : List K} : ∀ {l : List (PricedRow K)} {r : PricedRow K}, r ∈ adjusted ks l →
    ∃ q ∈ l, ∃ k : K, r = q.scaled (fin k) := by
  intro l r hr
  obtain ⟨i, hi, rfl⟩ := List.mem_iff_getElem.1 hr
  have hlen : i < l.length := by
    rw [adjusted, List.length_zipWith] at hi
    omega
  exact ⟨l[i], List.getElem_mem _, _, by simp only [adjusted, List.getElem_zipWith]; rfl⟩

theorem Holds.filled_eq (h : Holds cal D P) (hD : ∀ r ∈ D, r.Priced) : ∀ p ∈ P, p.filled = p := by
  intro p hp
  obtain ⟨ks, hks, hpos⟩ := exists_factors hD cal p.symbol
  have hmem : p.toPricedRow ∈ (ofSymbol p.symbol P).map (fun r => r.toPricedRow) :=
    List.mem_map_of_mem (Grouped.mem_group.2 ⟨hp, rfl⟩)
  rw [h.rows, deriveSymbol_factorsSymbol hks hpos] at hmem
  obtain ⟨q, hq, k, hqk⟩ := mem_adjusted hmem
  obtain ⟨r, hr, rfl⟩ := List.mem_map.1 hq
  obtain ⟨⟨c, hc, -⟩, -⟩ := hD r (Grouped.mem_sortRows.1 (Grouped.mem_group.1 hr).1)
  have hraw : p.closeRaw = fin c := by
    rw [hqk]
    exact hc
  exact PanelRow.filled_eq_self (by rw [hraw]; rfl)

theorem Holds.keys_perm (h : Holds cal D P) : (P.map PanelRow.key).Perm (D.map KrxRow.key) := by
  rw [h.keys]
  exact (Grouped.sortRows_perm KrxRow.key D).map _

theorem Holds.keys_append_perm (h : Holds cal D P) (B : List (PanelRow K)) :
    ((P ++ B.map PanelRow.filled).map PanelRow.key).Perm ((D ++ B.map (fun r => r.toKrxRow)).map KrxRow.key) := by
  rw [List.map_append, List.map_append, List.map_map, List.map_map]
  exact h.keys_perm.append_right _

theorem Holds.pairwise (h : Holds cal D P) : P.Pairwise (fun a b => toLex a.key ≤ toLex b.key) := by
  have hsorted : (P.map PanelRow.key).Pairwise (fun a b => toLex a ≤ toLex b) := by
    rw [h.keys]
    exact List.pairwise_map.2 (Grouped.sortRows_pairwise KrxRow.key D)
  exact List.pairwise_map.1 hsorted

/-- A new row comes after every stored row of its symbol. -/
theorem Holds.later (h : Holds cal D P) (hB : Extends D B) {p r : PanelRow K} (hp : p ∈ P) (hr : r ∈ B) (hsym : p.symbol = r.symbol) :
    p.date < r.date := by
  have hmem : p.key ∈ D.map KrxRow.key := h.keys_perm.mem_iff.1 (List.mem_map_of_mem hp)
  obtain ⟨d, hd, hkey⟩ := List.mem_map.1 hmem
  obtain ⟨hs, hdate⟩ := Prod.mk.inj hkey
  have hlt := hB.later d hd r hr (hs.trans hsym)
  rwa [hdate] at hlt

/-- The last stored row of a symbol is as it was delivered. -/
theorem Holds.getLast?_group (h : Holds cal D P) (hD : ∀ r ∈ D, r.Priced) (s : String) :
    (ofSymbol s P).getLast?.map (fun r => r.toKrxRow)
      = (group KrxRow.symbol s (sortRows KrxRow.key D)).getLast? := by
  obtain ⟨ks, hks, hpos⟩ := exists_factors hD cal s
  have hlen : ks.length = ((group KrxRow.symbol s (sortRows KrxRow.key D)).map KrxRow.priced).length := by
    have hlen := congrArg List.length hks
    simpa [factorsAfter] using hlen.symm
  have hlast := congrArg List.getLast? (h.rows s)
  rw [deriveSymbol_factorsSymbol hks hpos, getLast?_adjusted hlen, List.getLast?_map, List.getLast?_map] at hlast
  have hkrx := congrArg (Option.map (fun r : PricedRow K => r.toKrxRow)) hlast
  rw [Option.map_map, Option.map_map] at hkrx
  exact hkrx.trans Option.map_id'

/-- The rows of a symbol in the sorted panel: the stored ones and then the new ones. -/
theorem Holds.group_sorted (h : Holds cal D P) (hB : Extends D B) (s : String) :
    ofSymbol s (sortRows PanelRow.key (P ++ B.map PanelRow.filled))
      = ofSymbol s P
        ++ sortRows PanelRow.key (ofSymbol s (B.map PanelRow.filled)) := by
  have hnodup : ((P ++ B.map PanelRow.filled).map PanelRow.key).Nodup := (h.keys_append_perm B).nodup_iff.2 hB.nodup
  have hP : (ofSymbol s P).Pairwise (fun a b => toLex a.key ≤ toLex b.key) := h.pairwise.filter _
  have hle : ∀ a ∈ P, ∀ b ∈ B.map PanelRow.filled, a.symbol = b.symbol → toLex a.key ≤ toLex b.key := by
    intro a ha b hb hsym
    obtain ⟨r, hr, rfl⟩ := List.mem_map.1 hb
    have hlt : a.date < r.date := h.later hB ha hr hsym
    exact Prod.Lex.le_iff.2 (.inr ⟨hsym, le_of_lt hlt⟩)
  rw [ofSymbol, Grouped.group_sortRows_append hnodup hle, Grouped.sortRows_eq_self hP]

theorem map_toKrxRow_sorted (B : List (PanelRow K)) (s : String) :
    (sortRows PanelRow.key (ofSymbol s (B.map PanelRow.filled))).map (fun r => r.toKrxRow)
      = sortRows KrxRow.key (group KrxRow.symbol s (B.map (fun r => r.toKrxRow))) := by
  have hsort := @Grouped.map_sortRows _ _ _ _ _ PanelRow.key _ KrxRow.key (fun r : PanelRow K => r.toKrxRow) (fun _ => rfl)
    (ofSymbol s (B.map PanelRow.filled))
  have hgroup := @Grouped.group_map _ _ _ (fun r : PanelRow K => r.symbol) s _ KrxRow.symbol (fun r : PanelRow K => r.toKrxRow)
    (fun _ => rfl) (B.map PanelRow.filled)
  rw [hsort, ← hgroup, List.map_map]
  rfl

theorem mergeRows_eq {tradingDays : List Day} (h : Holds (tradingDays.insertionSort (· ≤ ·)) D P) (hB : Extends D B) :
    mergeRows P B tradingDays = perGroup (fun r => r.symbol)
      (mergeSymbol (tradingDays.insertionSort (· ≤ ·)) (fun r => decide (r.key ∈ B.map PanelRow.key)))
      (sortRows PanelRow.key (P ++ B.map PanelRow.filled)) := by
  have hfilled : (P ++ B).map PanelRow.filled = P ++ B.map PanelRow.filled := by
    rw [List.map_append, List.map_congr_left (h.filled_eq (fun r hr => hB.priced r (List.mem_append_left _ hr))), List.map_id']
  have hnodup : ((P ++ B.map PanelRow.filled).map PanelRow.key).Nodup := (h.keys_append_perm B).nodup_iff.2 hB.nodup
  dsimp only [mergeRows]
  rw [hfilled, KeepLast.keepLast_eq_self (Grouped.nodup_sortRows_keys hnodup)]

/-- A merged row is of the symbol it is computed for. -/
theorem symbol_of_mem_mergeSymbol {isNew : PanelRow K → Bool} (g : List (PanelRow K)) (s : String) (hg : ∀ a ∈ g, a.symbol = s) :
    ∀ m ∈ mergeSymbol cal isNew g, m.row.symbol = s := by
  intro m hm
  have hmem : m.row.key ∈ g.map PanelRow.key := by
    rw [← map_key_mergeSymbol cal isNew g]
    exact List.mem_map_of_mem hm
  obtain ⟨a, ha, hkey⟩ := List.mem_map.1 hmem
  rw [← show a.symbol = m.row.symbol from (Prod.mk.inj hkey).1]
  exact hg a ha

/-- **What a merge does to a symbol**: its stored rows are scaled by one positive number. -/
theorem merge_group {tradingDays : List Day} (h : Holds (tradingDays.insertionSort (· ≤ ·)) D P) (hB : Extends D B) (s : String) :
    ∃ kb : List K, (∀ k ∈ kb, 0 < k) ∧
      factorsAfter (tradingDays.insertionSort (· ≤ ·)) (group KrxRow.symbol s (sortRows KrxRow.key D)).getLast?
        (sortRows KrxRow.key (group KrxRow.symbol s (B.map (fun r => r.toKrxRow)))) = kb.map fin ∧
      ofSymbol s (mergeAndAdjust P B tradingDays).1 = (ofSymbol s P).map (PanelRow.scaled (fin kb.prod))
        ++ List.zipWith (fun k r => PanelRow.scaled (fin k) r) (laterProd kb)
            (sortRows PanelRow.key (ofSymbol s (B.map PanelRow.filled))) := by
  have hD : ∀ r ∈ D, r.Priced := fun r hr => hB.priced r (List.mem_append_left _ hr)
  obtain ⟨kb, hkb, hpos⟩ := factorsAfter_fins (tradingDays.insertionSort (· ≤ ·))
    (g := sortRows KrxRow.key (group KrxRow.symbol s (B.map (fun r => r.toKrxRow))))
    (d := (group KrxRow.symbol s (sortRows KrxRow.key D)).getLast?)
    (fun q hq => hD q (Grouped.mem_sortRows.1 (Grouped.mem_group.1 (List.mem_of_getLast? hq)).1))
    (fun r hr => hB.priced r (List.mem_append_right _ (Grouped.mem_group.1 (Grouped.mem_sortRows.1 hr)).1))
  refine ⟨kb, hpos, hkb, ?_⟩
  have hold : ∀ r ∈ ofSymbol s P, decide (r.key ∈ B.map PanelRow.key) = false := by
    intro r hr
    refine decide_eq_false (fun hmem => ?_)
    obtain ⟨q, hq, hkey⟩ := List.mem_map.1 hmem
    obtain ⟨hqs, hqd⟩ := Prod.mk.inj hkey
    have hlt : r.date < q.date := h.later hB (Grouped.mem_group.1 hr).1 hq hqs.symm
    exact absurd hqd hlt.ne'
  have hnew : ∀ r ∈ sortRows PanelRow.key (ofSymbol s (B.map PanelRow.filled)), decide (r.key ∈ B.map PanelRow.key) = true := by
    intro r hr
    obtain ⟨q, hq, rfl⟩ := List.mem_map.1 (Grouped.mem_group.1 (Grouped.mem_sortRows.1 hr)).1
    exact decide_eq_true (List.mem_map.2 ⟨q, hq, rfl⟩)
  have hfactors := hkb
  rw [← h.getLast?_group hD s, ← map_toKrxRow_sorted] at hfactors
  have hgroup := @Grouped.group_map _ _ _ (fun m : Merged K => m.row.symbol) s _ (fun r : PanelRow K => r.symbol) Merged.row
    (fun _ => rfl) (mergeRows P B tradingDays)
  dsimp only [mergeAndAdjust]
  rw [ofSymbol, hgroup, mergeRows_eq h hB, Grouped.group_perGroup rfl symbol_of_mem_mergeSymbol, ← ofSymbol, h.group_sorted hB, mergeSymbol_append hold hnew hfactors hpos]

/-- The delivered rows of a symbol: the ones before and then the new ones. -/
theorem Extends.group_sorted (hB : Extends D B) (s : String) :
    group KrxRow.symbol s (sortRows KrxRow.key (D ++ B.map (fun r => r.toKrxRow)))
      = group KrxRow.symbol s (sortRows KrxRow.key D)
        ++ sortRows KrxRow.key (group KrxRow.symbol s (B.map (fun r => r.toKrxRow))) := by
  have hle : ∀ d ∈ D, ∀ r ∈ B.map (fun r => r.toKrxRow), d.symbol = r.symbol → toLex d.key ≤ toLex r.key := by
    intro d hd r hr hsym
    obtain ⟨q, hq, rfl⟩ := List.mem_map.1 hr
    exact Prod.Lex.le_iff.2 (.inr ⟨hsym, le_of_lt (hB.later d hd q hq hsym)⟩)
  have hnodup : (D.map KrxRow.key).Nodup := hB.nodup.sublist ((List.sublist_append_left _ _).map _)
  rw [Grouped.group_sortRows_append hB.nodup hle, Grouped.group_sortRows hnodup]

theorem merge_keys {tradingDays : List Day} (h : Holds (tradingDays.insertionSort (· ≤ ·)) D P) (hB : Extends D B) :
    (mergeAndAdjust P B tradingDays).1.map PanelRow.key
      = (sortRows KrxRow.key (D ++ B.map (fun r => r.toKrxRow))).map KrxRow.key := by
  have hnodup : ((P ++ B.map PanelRow.filled).map PanelRow.key).Nodup := (h.keys_append_perm B).nodup_iff.2 hB.nodup
  have hsorted : (sortRows PanelRow.key (P ++ B.map PanelRow.filled)).Pairwise (fun a b => a.symbol ≤ b.symbol) :=
    Grouped.pairwise_group_le (fun _ => rfl) (Grouped.sortRows_pairwise PanelRow.key _)
  have hkeys : (mergeAndAdjust P B tradingDays).1.map PanelRow.key
      = (sortRows PanelRow.key (P ++ B.map PanelRow.filled)).map PanelRow.key := by
    dsimp only [mergeAndAdjust]
    rw [List.map_map, mergeRows_eq h hB]
    exact Grouped.map_perGroup (map_key_mergeSymbol _ _) hsorted
  have hpanel := @Grouped.map_sortRows _ _ _ _ _ PanelRow.key _ (fun k : String × Day => k) PanelRow.key (fun _ => rfl)
    (P ++ B.map PanelRow.filled)
  have hkrx := @Grouped.map_sortRows _ _ _ _ _ KrxRow.key _ (fun k : String × Day => k) KrxRow.key (fun _ => rfl)
    (D ++ B.map (fun r => r.toKrxRow))
  rw [hkeys, hpanel, hkrx]
  exact Grouped.sortRows_congr (h.keys_append_perm B) (by rw [List.map_id']; exact hnodup)

/-- **A merge takes the panel of what was delivered to the panel of that and the new rows.** -/
theorem merge_holds {tradingDays : List Day} (h : Holds (tradingDays.insertionSort (· ≤ ·)) D P) (hB : Extends D B) :
    Holds (tradingDays.insertionSort (· ≤ ·)) (D ++ B.map (fun r => r.toKrxRow)) (mergeAndAdjust P B tradingDays).1 := by
  refine ⟨merge_keys h hB, fun s => ?_⟩
  have hD : ∀ r ∈ D, r.Priced := fun r hr => hB.priced r (List.mem_append_left _ hr)
  obtain ⟨ks, hks, hkspos⟩ := exists_factors hD (tradingDays.insertionSort (· ≤ ·)) s
  obtain ⟨kb, hkbpos, hkb, hgroup⟩ := merge_group h hB s
  have hfactors : factorsAfter (tradingDays.insertionSort (· ≤ ·)) none
      (group KrxRow.symbol s (sortRows KrxRow.key (D ++ B.map (fun r => r.toKrxRow)))) = (ks ++ kb).map fin := by
    rw [hB.group_sorted, factorsAfter_append, Option.or_none, hks, hkb, List.map_append]
  have hpos : ∀ k ∈ ks ++ kb, 0 < k := fun k hk => (List.mem_append.1 hk).elim (hkspos k) (hkbpos k)
  have hlen : ks.length = ((group KrxRow.symbol s (sortRows KrxRow.key D)).map KrxRow.priced).length := by
    have hlen := congrArg List.length hks
    simpa [factorsAfter] using hlen.symm
  have hnew : (sortRows PanelRow.key (ofSymbol s (B.map PanelRow.filled))).map (fun r => r.toPricedRow)
      = (sortRows KrxRow.key (group KrxRow.symbol s (B.map (fun r => r.toKrxRow)))).map KrxRow.priced := by
    rw [← map_toKrxRow_sorted, List.map_map]
    refine List.map_congr_left (fun r hr => ?_)
    obtain ⟨q, hq, rfl⟩ := List.mem_map.1 (Grouped.mem_group.1 (Grouped.mem_sortRows.1 hr)).1
    exact hB.filled_priced q hq
  have hstored : ((ofSymbol s P).map (PanelRow.scaled (fin kb.prod))).map (fun r => r.toPricedRow)
      = (adjusted ks ((group KrxRow.symbol s (sortRows KrxRow.key D)).map KrxRow.priced)).map (PricedRow.scaled (fin kb.prod)) := by
    rw [← deriveSymbol_factorsSymbol hks hkspos, ← h.rows s, List.map_map, List.map_map]
    rfl
  rw [deriveSymbol_factorsSymbol hfactors hpos, hB.group_sorted, List.map_append, adjusted_append hlen hkspos hkbpos, hgroup,
    List.map_append, hstored, List.map_zipWith, ← hnew]
  congr 1
  rw [adjusted, List.zipWith_map_right]
  rfl

/-- **What an ingest selects and assembles may be merged**: rows of accepted blocks, whatever of them is stored already. -/
theorem Holds.ingest_extends (h : Holds cal D P) (hD : ∀ r ∈ D, r.Priced) (hnodup : (D.map KrxRow.key).Nodup) {fetched : List (KrxRow K)}
    {flows : List (FlowRow K)} (hpriced : ∀ r ∈ fetched, r.Priced)
    (hB : assembleNewRows (selectTailRows fetched (panelLastDates P)) flows = .ok B) : Extends D B := by
  obtain ⟨hkeys, hrows, hraw⟩ := assembleNewRows_ok hB
  have hlater : ∀ d ∈ D, ∀ r ∈ selectTailRows fetched (panelLastDates P), d.symbol = r.symbol → d.date < r.date := by
    intro d hd r hr hsym
    obtain ⟨p, hp, hkey⟩ := List.mem_map.1 (h.keys_perm.mem_iff.2 (List.mem_map_of_mem hd))
    obtain ⟨hs, hdate⟩ := Prod.mk.inj hkey
    have hlt := selectTailRows_later hr hp (hs.trans hsym)
    rwa [hdate] at hlt
  refine ⟨fun r hr => ?_, ?_, fun r hr => .inl (hraw r hr), fun d hd r hr hsym => ?_⟩
  · rw [hrows] at hr
    exact (List.mem_append.1 hr).elim (hD r) (fun hr => hpriced r (List.mem_filter.1 hr).1)
  · rw [hrows, List.map_append]
    refine List.nodup_append.2 ⟨hnodup, hkeys, fun k hk k' hk' heq => ?_⟩
    obtain ⟨d, hd, rfl⟩ := List.mem_map.1 hk
    obtain ⟨r, hr, rfl⟩ := List.mem_map.1 hk'
    obtain ⟨hs, hdate⟩ := Prod.mk.inj heq
    exact (hlater d hd r hr hs).ne hdate
  · exact hlater d hd r.toKrxRow (hrows ▸ List.mem_map_of_mem hr) hsym

/-! ## Deliveries -/

/-- The panel after the merges of the batches, one after the other. -/
def mergeAll (tradingDays : List Day) (batches : List (List (PanelRow K))) : List (PanelRow K) :=
  batches.foldl (fun panel newRows => (mergeAndAdjust panel newRows tradingDays).1) []

/-- Batches that deliver all the rows, each symbol's in the order of their dates. -/
structure Delivery (rows : List (KrxRow K)) (tradingDays : List Day) (batches : List (List (PanelRow K))) : Prop where
  priced : ∀ r ∈ rows, r.Priced
  nodup : (rows.map KrxRow.key).Nodup
  calendar : ∀ d, d ∈ tradingDays ↔ d ∈ rows.map KrxRow.date
  all : (batches.flatten.map (fun r => r.toKrxRow)).Perm rows
  raw : ∀ B ∈ batches, ∀ r ∈ B, r.closeRaw = r.close ∨ r.closeRaw = nan
  inOrder : batches.Pairwise (fun B C => ∀ r ∈ B, ∀ q ∈ C, r.symbol = q.symbol → r.date < q.date)

variable {rows : List (KrxRow K)} {tradingDays : List Day} {batches done rest : List (List (PanelRow K))}

theorem mergeAll_concat (tradingDays : List Day) (done : List (List (PanelRow K))) (B : List (PanelRow K)) :
    mergeAll tradingDays (done ++ [B]) = (mergeAndAdjust (mergeAll tradingDays done) B tradingDays).1 :=
  List.foldl_concat _ _ _ _

theorem Delivery.extends (d : Delivery rows tradingDays batches) (h : batches = done ++ B :: rest) :
    Extends (done.flatten.map (fun r => r.toKrxRow)) B := by
  subst h
  have hsub : (done.flatten.map (fun r => r.toKrxRow) ++ B.map (fun r => r.toKrxRow)).Sublist
      ((done ++ B :: rest).flatten.map (fun r => r.toKrxRow)) := by
    rw [List.flatten_append, List.flatten_cons, List.map_append, List.map_append, ← List.append_assoc]
    exact List.sublist_append_left _ _
  refine ⟨fun r hr => d.priced r (d.all.mem_iff.1 (hsub.mem hr)), ?_, d.raw B (by simp), fun r hr q hq hsym => ?_⟩
  · exact ((d.all.map KrxRow.key).nodup_iff.2 d.nodup).sublist (hsub.map _)
  · obtain ⟨p, hp, rfl⟩ := List.mem_map.1 hr
    obtain ⟨C, hC, hpC⟩ := List.mem_flatten.1 hp
    exact (List.pairwise_append.1 d.inOrder).2.2 C hC B List.mem_cons_self p hpC q hq hsym

theorem Delivery.holds (d : Delivery rows tradingDays batches) (done rest : List (List (PanelRow K))) :
    batches = done ++ rest →
      Holds (tradingDays.insertionSort (· ≤ ·)) (done.flatten.map (fun r => r.toKrxRow)) (mergeAll tradingDays done) := by
  induction done using List.reverseRecOn generalizing rest with
  | nil => intro _; exact ⟨rfl, fun _ => rfl⟩
  | append_singleton done B ih =>
    intro h
    rw [List.append_assoc, List.singleton_append] at h
    rw [mergeAll_concat, List.flatten_append, List.flatten_singleton, List.map_append]
    exact merge_holds (ih (B :: rest) h) (d.extends h)

/-! ## All at once -/

theorem rebuildFactor_congr {cal' : List Day} (h : ∀ d, prevTrading cal d = prevTrading cal' d) :
    (rebuildFactor cal : Option (KrxRow K) → KrxRow K → Flt K) = rebuildFactor cal' := by
  funext p r
  rw [rebuildFactor, rebuildFactor, rebuildEvent, rebuildEvent, followsTradingDay_congr h]

theorem symbol_of_mem_factorsSymbol (g : List (KrxRow K)) (s : String) (hg : ∀ r ∈ g, r.symbol = s) :
    ∀ r ∈ factorsSymbol cal g, r.symbol = s := by
  intro r hr
  obtain ⟨i, hi, rfl⟩ := List.mem_iff_getElem.1 hr
  have hlen : i < g.length := by
    rw [factorsSymbol, List.length_zipWith] at hi
    omega
  simp only [factorsSymbol, List.getElem_zipWith]
  exact hg g[i] (List.getElem_mem hlen)

theorem symbol_of_mem_deriveSymbol (g : List (FactorRow K)) (s : String) (hg : ∀ r ∈ g, r.symbol = s) :
    ∀ r ∈ deriveSymbol g, r.symbol = s := by
  intro r hr
  obtain ⟨i, hi, rfl⟩ := List.mem_iff_getElem.1 hr
  have hlen : i < g.length := by
    rw [deriveSymbol, List.length_zipWith] at hi
    omega
  simp only [deriveSymbol, List.getElem_zipWith]
  split_ifs
  · exact hg g[i] (List.getElem_mem hlen)
  · exact hg g[i] (List.getElem_mem hlen)

/-- What the rebuild gives for a symbol. -/
theorem derive_group (rows : List (KrxRow K)) (s : String) :
    group (fun r : PricedRow K => r.symbol) s (deriveAdjustedPrices rows)
      = deriveSymbol (factorsSymbol (rebuildCalendar rows) (group KrxRow.symbol s (sortRows KrxRow.key rows))) := by
  rw [deriveAdjustedPrices, Grouped.group_perGroup rfl symbol_of_mem_deriveSymbol, computeBasePriceFactors,
    Grouped.group_perGroup rfl symbol_of_mem_factorsSymbol]

theorem derive_pairwise (rows : List (KrxRow K)) : (deriveAdjustedPrices rows).Pairwise (fun a b => a.symbol ≤ b.symbol) := by
  have hsorted : (sortRows KrxRow.key rows).Pairwise (fun a b => a.symbol ≤ b.symbol) :=
    Grouped.pairwise_group_le (fun _ => rfl) (Grouped.sortRows_pairwise KrxRow.key rows)
  have hfactors : (computeBasePriceFactors rows).Pairwise (fun a b => a.symbol ≤ b.symbol) :=
    Grouped.perGroup_pairwise symbol_of_mem_factorsSymbol hsorted
  exact Grouped.perGroup_pairwise symbol_of_mem_deriveSymbol hfactors

/-- The panel of all the rows is the one the rebuild derives. -/
theorem Holds.eq_derive (h : Holds (tradingDays.insertionSort (· ≤ ·)) D P) (hperm : D.Perm rows) (hpriced : ∀ r ∈ rows, r.Priced)
    (hnodup : (rows.map KrxRow.key).Nodup) (hcal : ∀ d, d ∈ tradingDays ↔ d ∈ rows.map KrxRow.date) :
    P.map (fun r => r.toPricedRow) = deriveAdjustedPrices rows := by
  have hdays : ∀ d, prevTrading (tradingDays.insertionSort (· ≤ ·)) d = prevTrading (rebuildCalendar rows) d := by
    refine prevTrading_congr (List.pairwise_insertionSort _ _) (List.pairwise_insertionSort _ _) (fun d => ?_)
    rw [List.mem_insertionSort, rebuildCalendar, List.mem_insertionSort, List.mem_dedup, hcal]
  have hsort : sortRows KrxRow.key D = sortRows KrxRow.key rows :=
    Grouped.sortRows_congr hperm ((hperm.map KrxRow.key).nodup_iff.2 hnodup)
  have hsym : (P.map (fun r => r.toPricedRow)).Pairwise (fun a b => a.symbol ≤ b.symbol) :=
    List.pairwise_map.2 (Grouped.pairwise_group_le (fun _ => rfl) h.pairwise)
  refine Grouped.eq_of_groups hsym (derive_pairwise rows) (fun s => ?_)
  obtain ⟨ks, hks, hpos⟩ := exists_factors hpriced (tradingDays.insertionSort (· ≤ ·)) s
  have hks' := hks
  rw [factorsAfter, rebuildFactor_congr hdays, ← factorsAfter] at hks'
  have hgroup := @Grouped.group_map _ _ _ (fun r : PanelRow K => r.symbol) s _ (fun r : PricedRow K => r.symbol)
    (fun r => r.toPricedRow) (fun _ => rfl) P
  rw [hgroup, h.rows, hsort, deriveSymbol_factorsSymbol hks hpos, derive_group, deriveSymbol_factorsSymbol hks' hpos]

/-- A merged row that is a stored one with its five prices multiplied by `k`. -/
structure Rescaled (k : K) (stored merged : PanelRow K) : Prop where
  key : merged.key = stored.key
  open_ : merged.open_ = stored.open_.mul (fin k)
  high : merged.high = stored.high.mul (fin k)
  low : merged.low = stored.low.mul (fin k)
  close : merged.close = stored.close.mul (fin k)
  prevClose : merged.prevClose = stored.prevClose.mul (fin k)
  volume : merged.volume = stored.volume
  closeRaw : merged.closeRaw = stored.closeRaw
  flows : merged.instNetbuy = stored.instNetbuy ∧ merged.foreignNetbuy = stored.foreignNetbuy
    ∧ merged.programNetbuy = stored.programNetbuy

/-- **The adjusted panel does not depend on how history arrives**, and a merge scales what is stored of a symbol by
one positive factor. -/
theorem back_adjustment_order_free (d : Delivery rows tradingDays batches) :
    (mergeAll tradingDays batches).map (fun r => r.toPricedRow) = deriveAdjustedPrices rows ∧
    ∀ done B rest, batches = done ++ B :: rest → ∀ s, ∃ k : K, 0 < k ∧ ∀ p ∈ mergeAll tradingDays done, p.symbol = s →
      ∃ m ∈ (mergeAndAdjust (mergeAll tradingDays done) B tradingDays).1, Rescaled k p m := by
  constructor
  · exact (d.holds batches [] (List.append_nil _).symm).eq_derive d.all d.priced d.nodup d.calendar
  · intro done B rest hsplit s
    obtain ⟨kb, hpos, -, hgroup⟩ := merge_group (d.holds done (B :: rest) hsplit) (d.extends hsplit) s
    refine ⟨kb.prod, List.prod_pos hpos, fun p hp hs => ⟨p.scaled (fin kb.prod), ?_, ?_⟩⟩
    · have hmem : p.scaled (fin kb.prod) ∈ ofSymbol s (mergeAndAdjust (mergeAll tradingDays done) B tradingDays).1 := by
        rw [hgroup]
        exact List.mem_append_left _ (List.mem_map_of_mem (Grouped.mem_group.2 ⟨hp, hs⟩))
      exact (Grouped.mem_group.1 hmem).1
    · exact ⟨rfl, rfl, rfl, rfl, rfl, rfl, rfl, rfl, rfl, rfl, rfl⟩

/-- A row whose four prices are its close. -/
def flatRow (date : Day) (symbol : String) (close base : ℚ) : KrxRow ℚ :=
  { date := date, symbol := symbol, open_ := fin close, high := fin close, low := fin close, close := fin close,
    prevClose := fin base, volume := fin 1000, tradeValue100m := fin 1, marketCap100m := fin 1, market := "KOSPI" }

/-- The row as it is merged, with flows for some. -/
def tailRow (r : KrxRow ℚ) : PanelRow ℚ :=
  { r with closeRaw := r.close, instNetbuy := fin 5, foreignNetbuy := nan, programNetbuy := nan }

/-- A is split five to one on day 3; B does not trade on day 2, and its first row comes a day late. -/
def splitRows : List (KrxRow ℚ) :=
  [flatRow 1 "A" 10000 10000, flatRow 1 "B" 3000 3000, flatRow 2 "A" 10500 10000, flatRow 3 "A" 2200 2100, flatRow 3 "B" 900 1000]

def splitBatches : List (List (PanelRow ℚ)) :=
  [[tailRow (flatRow 1 "A" 10000 10000)], [tailRow (flatRow 1 "B" 3000 3000), tailRow (flatRow 2 "A" 10500 10000)],
   [tailRow (flatRow 3 "A" 2200 2100), tailRow (flatRow 3 "B" 900 1000)]]

theorem back_adjustment_order_free_split :
    (mergeAll [1, 2, 3] splitBatches).map (fun r => r.toPricedRow) = deriveAdjustedPrices splitRows ∧
    (mergeAll [1, 2, 3] splitBatches).map (fun r => r.close) = [fin 2000, fin 2100, fin 2200, fin 3000, fin 900] := by
  have hpriced : ∀ r ∈ splitRows, r.Priced := by
    intro r hr
    simp only [splitRows, List.mem_cons, List.not_mem_nil, or_false] at hr
    rcases hr with rfl | rfl | rfl | rfl | rfl
    · exact ⟨⟨10000, rfl, by decide +kernel⟩, 10000, rfl, by decide +kernel⟩
    · exact ⟨⟨3000, rfl, by decide +kernel⟩, 3000, rfl, by decide +kernel⟩
    · exact ⟨⟨10500, rfl, by decide +kernel⟩, 10000, rfl, by decide +kernel⟩
    · exact ⟨⟨2200, rfl, by decide +kernel⟩, 2100, rfl, by decide +kernel⟩
    · exact ⟨⟨900, rfl, by decide +kernel⟩, 1000, rfl, by decide +kernel⟩
  have hcal : ∀ d : Day, d ∈ [1, 2, 3] ↔ d ∈ splitRows.map KrxRow.date := by
    intro d
    simp only [splitRows, flatRow, List.map_cons, List.map_nil, List.mem_cons, List.not_mem_nil, or_false]
    tauto
  have hdelivery : Delivery splitRows [1, 2, 3] splitBatches :=
    ⟨hpriced, by decide +kernel, hcal, by decide +kernel, by decide +kernel, by decide +kernel⟩
  exact ⟨(back_adjustment_order_free hdelivery).1, by decide +kernel⟩

end PriceIngest
