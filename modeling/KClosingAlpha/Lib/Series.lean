import KClosingAlpha.Lib.Flt
import Mathlib.Algebra.Order.BigOperators.GroupWithZero.List
import Mathlib.Data.List.Induction
/-!
# Series — columns computed along a sequence of rows

A column operation takes the values of consecutive rows and gives one value a row.  `scan` computes each value from
the row and the rows before it, and whatever agrees with it on the empty and the extended column is it (`eq_scan`):
such an operation never reads a later row.  `shift`, `shiftBack`, `rolling`, `cumsum` and `cumprod` are the operations
of a grouped column, each with what it gives when a row is appended (`shift_concat`, …).
-/
namespace Series

set_option linter.unusedSectionVars false

variable {α β γ : Type*}

/-! ## Reading the rows before -/

/-- One value a row, from the rows before it and the row, after the rows of `p`. -/
def scanFrom (g : List α → α → β) (p : List α) : List α → List β
  | [] => []
  | x :: l => g p x :: scanFrom g (p ++ [x]) l

/-- One value a row, from the rows before it and the row. -/
def scan (g : List α → α → β) (l : List α) : List β := scanFrom g [] l

theorem scanFrom_append (g : List α → α → β) (m : List α) : ∀ l p : List α,
    scanFrom g p (l ++ m) = scanFrom g p l ++ scanFrom g (p ++ l) m
  | [], p => by simp [scanFrom]
  | x :: l, p => by simp [scanFrom, scanFrom_append g m l]

@[simp] theorem scan_nil (g : List α → α → β) : scan g [] = [] := rfl

theorem scan_append (g : List α → α → β) (l m : List α) : scan g (l ++ m) = scan g l ++ scanFrom g l m :=
  scanFrom_append g m l []

@[simp] theorem scan_concat (g : List α → α → β) (l : List α) (x : α) : scan g (l ++ [x]) = scan g l ++ [g l x] :=
  scan_append g l [x]

@[simp] theorem length_scanFrom (g : List α → α → β) : ∀ l p : List α, (scanFrom g p l).length = l.length
  | [], _ => rfl
  | x :: l, p => by rw [scanFrom, List.length_cons, List.length_cons, length_scanFrom g l]

@[simp] theorem length_scan (g : List α → α → β) (l : List α) : (scan g l).length = l.length := length_scanFrom g l []

/-- **An operation that appends a value for an appended row reads no later row.** -/
theorem eq_scan {f : List α → List β} {g : List α → α → β} (hnil : f [] = []) (happ : ∀ l x, f (l ++ [x]) = f l ++ [g l x]) :
    ∀ l, f l = scan g l := by
  intro l
  induction l using List.reverseRecOn with
  | nil => exact hnil
  | append_singleton l x ih => rw [happ, ih, scan_concat]

theorem scanFrom_congr {g g' : List α → α → β} (h : ∀ p x, g p x = g' p x) : ∀ l p : List α, scanFrom g p l = scanFrom g' p l
  | [], _ => rfl
  | x :: l, p => by rw [scanFrom, scanFrom, h, scanFrom_congr h l]

theorem map_scanFrom (φ : β → γ) (g : List α → α → β) : ∀ l p : List α,
    (scanFrom g p l).map φ = scanFrom (fun p x => φ (g p x)) p l
  | [], _ => rfl
  | x :: l, p => by rw [scanFrom, scanFrom, List.map_cons, map_scanFrom φ g l]

theorem mem_scanFrom {g : List α → α → β} {b : β} : ∀ {l p : List α}, b ∈ scanFrom g p l →
    ∃ q x r, l = q ++ x :: r ∧ b = g (p ++ q) x
  | x :: l, p, h => by
    rcases List.mem_cons.1 h with rfl | h
    · exact ⟨[], x, l, rfl, by rw [List.append_nil]⟩
    · obtain ⟨q, y, r, rfl, rfl⟩ := mem_scanFrom h
      exact ⟨x :: q, y, r, rfl, by rw [List.append_assoc]; rfl⟩

/-! ## Shifts -/

/-- `shift(1)`: each row has the value of the row before it. -/
def shift (d : α) (l : List α) : List α := (d :: l).dropLast

/-- `shift(-1)`: each row has the value of the row after it. -/
def shiftBack (d : α) : List α → List α
  | [] => []
  | _ :: l => l ++ [d]

@[simp] theorem shift_nil (d : α) : shift d [] = [] := rfl

@[simp] theorem length_shift (d : α) (l : List α) : (shift d l).length = l.length := by simp [shift]

@[simp] theorem length_shiftBack (d : α) (l : List α) : (shiftBack d l).length = l.length := by cases l <;> simp [shiftBack]

theorem shift_append_singleton (d : α) (l : List α) (x : α) : shift d (l ++ [x]) = d :: l := by
  rw [shift, ← List.cons_append, List.dropLast_concat]

@[simp] theorem shift_concat (d : α) (l : List α) (x : α) : shift d (l ++ [x]) = shift d l ++ [(d :: l).getLast (by simp)] := by
  rw [shift_append_singleton, shift, List.dropLast_concat_getLast]

theorem shift_cons (d x : α) (l : List α) : shift d (x :: l) = d :: shift x l := by
  simp [shift]

theorem shift_append (d : α) (l m : List α) : shift d (l ++ m) = shift d l ++ shift (l.getLastD d) m := by
  induction l generalizing d with
  | nil => rfl
  | cons x l ih => rw [List.cons_append, shift_cons, shift_cons, ih, List.cons_append, List.getLastD_cons]

theorem map_shift (φ : α → β) (d : α) (l : List α) : (shift d l).map φ = shift (φ d) (l.map φ) := by
  rw [shift, shift, List.map_dropLast, List.map_cons]

/-- The value of the row after, brought back to the next row, is the row's own: only the first row has none. -/
theorem shift_shiftBack (d x : α) (l : List α) : shift d (shiftBack d (x :: l)) = d :: l :=
  shift_append_singleton d l d

/-! ## Columns side by side -/

theorem zipWith_snd (f : β → γ) {l : List α} {m : List β} (h : m.length ≤ l.length) :
    List.zipWith (fun _ b => f b) l m = m.map f := by
  nth_rewrite 2 [← List.map_snd_zip h]
  rw [List.map_map, List.zip, List.map_zipWith]
  rfl

theorem zipWith_replicate_left (f : α → β → γ) (a : α) (l : List β) :
    List.zipWith f (List.replicate l.length a) l = l.map (f a) := by
  induction l with
  | nil => rfl
  | cons b l ih => rw [List.length_cons, List.replicate_succ, List.zipWith_cons_cons, ih, List.map_cons]

/-! ## Rolling windows -/

/-- The last `w` values. -/
def lastN (w : Nat) (l : List α) : List α := l.drop (l.length - w)

/-- Each row has the aggregate of the `w` rows up to it. -/
def rolling (w : Nat) (agg : List α → β) (l : List α) : List β := scan (fun p x => agg (lastN w (p ++ [x]))) l

@[simp] theorem rolling_nil (w : Nat) (agg : List α → β) : rolling w agg [] = [] := rfl

@[simp] theorem rolling_concat (w : Nat) (agg : List α → β) (l : List α) (x : α) :
    rolling w agg (l ++ [x]) = rolling w agg l ++ [agg (lastN w (l ++ [x]))] := scan_concat _ l x

@[simp] theorem length_rolling (w : Nat) (agg : List α → β) (l : List α) : (rolling w agg l).length = l.length :=
  length_scan _ l

/-- A window over a shifted column ends at the row before. -/
theorem rolling_shift_concat (w : Nat) (agg : List α → β) (d : α) (l : List α) (x : α) :
    rolling w agg (shift d (l ++ [x])) = rolling w agg (shift d l) ++ [agg (lastN w (d :: l))] := by
  rw [shift_concat, rolling_concat, ← shift_concat d l x, shift_append_singleton]

theorem lastN_of_le {w : Nat} {l : List α} (h : l.length ≤ w) : lastN w l = l := by
  rw [lastN, Nat.sub_eq_zero_of_le h, List.drop_zero]

theorem length_lastN (w : Nat) (l : List α) : (lastN w l).length = min w l.length := by
  rw [lastN, List.length_drop]
  omega

/-- A window does not read the rows that are `w` rows back. -/
theorem lastN_append_of_le {w : Nat} {m : List α} (l : List α) (h : w ≤ m.length) : lastN w (l ++ m) = lastN w m := by
  have hlen : (l ++ m).length - w = l.length + (m.length - w) := by
    rw [List.length_append]
    omega
  rw [lastN, hlen, List.drop_append, List.drop_eq_nil_of_le (by omega), List.nil_append, lastN]
  congr 1
  omega

theorem lastN_map (w : Nat) (φ : α → β) (l : List α) : lastN w (l.map φ) = (lastN w l).map φ := by
  rw [lastN, lastN, List.length_map, List.map_drop]

theorem mem_of_mem_lastN {w : Nat} {l : List α} {a : α} (h : a ∈ lastN w l) : a ∈ l := List.mem_of_mem_drop h

/-! ## Aggregates of numbers -/

variable {K : Type*} [Field K] [LinearOrder K]

open Flt (nan fin)

/-- The numbers a rolling aggregate reads: an infinity is missing to it as NaN is. -/
def observed (l : List (Flt K)) : List K := l.filterMap (fun | fin x => some x | _ => none)

/-- `rolling.sum`: NaN below `min_periods` observations. -/
def rollSum (minPeriods : Nat) (l : List (Flt K)) : Flt K :=
  if minPeriods ≤ (observed l).length then fin (observed l).sum else nan

def rollMean (minPeriods : Nat) (l : List (Flt K)) : Flt K :=
  if minPeriods ≤ (observed l).length ∧ 0 < (observed l).length then fin ((observed l).sum / (observed l).length) else nan

def rollMax (minPeriods : Nat) (l : List (Flt K)) : Flt K :=
  if minPeriods ≤ (observed l).length then ((observed l).max?.map fin).getD nan else nan

/-- `rolling.count`: `min_periods` is of rows here, not of observations. -/
def rollCount (minPeriods : Nat) (l : List (Flt K)) : Flt K :=
  if minPeriods ≤ l.length then fin (l.filter (fun x => !x.isNan)).length else nan

/-- `cumsum`: a missing value is left out of the sums and stays missing. -/
def cumsum (l : List (Flt K)) : List (Flt K) :=
  scan (fun p x => if x.isNan then nan else ((p ++ [x]).filter (fun y => !y.isNan)).foldl Flt.add (fin 0)) l

/-- `cumprod`. -/
def cumprod (l : List (Flt K)) : List (Flt K) :=
  scan (fun p x => if x.isNan then nan else ((p ++ [x]).filter (fun y => !y.isNan)).foldl Flt.mul (fin 1)) l

@[simp] theorem observed_nil : observed ([] : List (Flt K)) = [] := rfl

@[simp] theorem observed_append (l m : List (Flt K)) : observed (l ++ m) = observed l ++ observed m :=
  List.filterMap_append

@[simp] theorem observed_map_fin (l : List K) : observed (l.map fin) = l := by
  rw [observed, List.filterMap_map]
  exact List.filterMap_some

theorem foldl_mul_fin : ∀ (l : List K) (a : K), (l.map fin).foldl Flt.mul (fin a) = fin (a * l.prod)
  | [], a => by simp
  | x :: l, a => by simp [foldl_mul_fin l, mul_assoc]

theorem filter_map_fin (l : List K) : (l.map fin).filter (fun y => !y.isNan) = l.map fin :=
  List.filter_eq_self.2 (fun y hy => by obtain ⟨x, -, rfl⟩ := List.mem_map.1 hy; rfl)

theorem cumprod_concat (l : List K) (x : K) :
    cumprod ((l ++ [x]).map fin) = cumprod (l.map fin) ++ [fin (l ++ [x]).prod] := by
  rw [List.map_append, List.map_singleton, cumprod, scan_concat, ← cumprod]
  congr 2
  have hmap : l.map fin ++ [fin x] = (l ++ [x]).map fin := by simp
  rw [Flt.isNan_fin, hmap, filter_map_fin, foldl_mul_fin, one_mul]
  rfl

/-! ## The products of what comes later -/

/-- For each number of a list, the product of the numbers after it. -/
def laterProd : List K → List K
  | [] => []
  | _ :: l => l.prod :: laterProd l

@[simp] theorem length_laterProd : ∀ l : List K, (laterProd l).length = l.length
  | [] => rfl
  | _ :: l => by rw [laterProd, List.length_cons, List.length_cons, length_laterProd l]

/-- What is appended multiplies what every earlier number is followed by. -/
theorem laterProd_append (m : List K) : ∀ l : List K,
    laterProd (l ++ m) = (laterProd l).map (· * m.prod) ++ laterProd m
  | [] => rfl
  | x :: l => by
    rw [List.cons_append, laterProd, laterProd, laterProd_append m l, List.prod_append, List.map_cons, List.cons_append]

theorem laterProd_replicate_one (n : Nat) : laterProd (List.replicate n (1 : K)) = List.replicate n 1 := by
  induction n with
  | zero => rfl
  | succ n ih => rw [List.replicate_succ, laterProd, ih, List.prod_replicate, one_pow]

@[simp] theorem laterProd_concat (l : List K) (x : K) : laterProd (l ++ [x]) = (laterProd l).map (· * x) ++ [1] := by
  rw [laterProd_append, List.prod_singleton]
  rfl

theorem laterProd_pos [IsStrictOrderedRing K] : ∀ {l : List K}, (∀ x ∈ l, 0 < x) → ∀ y ∈ laterProd l, 0 < y
  | x :: l, h, y, hy => by
    rcases List.mem_cons.1 hy with rfl | hy
    · exact List.prod_pos (fun z hz => h z (List.mem_cons_of_mem _ hz))
    · exact laterProd_pos (fun z hz => h z (List.mem_cons_of_mem _ hz)) y hy

/-- **The reversed cumulative product divided by the column itself is the product of what comes later.** -/
theorem zipWith_div_cumprod_reverse : ∀ {l : List K}, (∀ x ∈ l, x ≠ 0) →
    List.zipWith Flt.div (cumprod (l.map fin).reverse).reverse (l.map fin) = (laterProd l).map fin
  | [], _ => rfl
  | x :: l, h => by
    have hx : x ≠ 0 := h x List.mem_cons_self
    have hrev : (cumprod ((x :: l).map fin).reverse).reverse = fin (x :: l).prod :: (cumprod (l.map fin).reverse).reverse := by
      rw [← List.map_reverse, List.reverse_cons, cumprod_concat, List.reverse_append, List.map_reverse, List.prod_append,
        List.prod_singleton, List.prod_reverse, List.prod_cons, mul_comm]
      rfl
    rw [hrev, List.map_cons, List.zipWith_cons_cons, zipWith_div_cumprod_reverse (fun y hy => h y (List.mem_cons_of_mem _ hy)),
      Flt.fin_div_fin _ hx, laterProd, List.map_cons, List.prod_cons, mul_div_cancel_left₀ _ hx]

end Series
