import KClosingAlpha.Order.Steps
import Mathlib.Algebra.Order.BigOperators.Group.List
/-!
# Totals — sums over the intents of a journal, one record at a time

A record changes the term of its own intent alone, so a total moves by that term; `total_snoc` and `total_snoc_le` are
the two ways the bounds of the later modules use it.
-/
namespace Order

open Py (Dict)

/-- The sum of `f` over the states of the journal's intents. -/
def total (j : Journal) (f : IntentState → Int) : Int := ((idsOf j).map (fun x => f (stateOf j x))).sum

/-- The same without one intent. -/
def totalOthers (j : Journal) (f : IntentState → Int) (id : String) : Int :=
  ((idsOf j).map (fun x => if x = id then 0 else f (stateOf j x))).sum

theorem sum_filterMap {α : Type} (f : α → Option Int) : ∀ (l : List α),
    (l.filterMap f).sum = (l.map (fun a => (f a).getD 0)).sum
  | [] => rfl
  | a :: l => by
    rw [List.map_cons, List.sum_cons, ← sum_filterMap f l]
    cases hf : f a <;> simp [hf]

theorem sum_split {f : String → Int} {a : String} : ∀ {l : List String}, l.Nodup → a ∈ l →
    (l.map f).sum = f a + (l.map (fun x => if x = a then 0 else f x)).sum
  | b :: l, hnd, ha => by
    rw [List.nodup_cons] at hnd
    simp only [List.map_cons, List.sum_cons]
    by_cases hba : b = a
    · have hrest : l.map (fun x => if x = a then 0 else f x) = l.map f :=
        List.map_congr_left (fun x hx => if_neg (fun hxa : x = a => hnd.1 (hba.trans hxa.symm ▸ hx)))
      rw [if_pos hba, hrest, hba]
      omega
    · rw [if_neg hba, sum_split hnd.2 (List.mem_of_ne_of_mem (Ne.symm hba) ha)]
      omega

variable {j : Journal} {e : JournalEvent} {f f' : IntentState → Int} {id : String}

theorem sum_statesOf : ((statesOf j).map (fun p => f p.2)).sum = total j f := by
  unfold statesOf total
  rw [List.map_map]
  rfl

theorem total_split (hid : id ∈ idsOf j) : total j f = f (stateOf j id) + totalOthers j f id :=
  sum_split (idsOf_nodup j) hid

theorem total_mono (h : ∀ x, f (stateOf j x) ≤ f' (stateOf j x)) : total j f ≤ total j f' :=
  List.sum_le_sum (fun x _ => h x)

theorem total_zero (h : ∀ x, f (stateOf j x) = 0) : total j f = 0 := by
  unfold total
  rw [List.map_congr_left (fun x _ => h x)]
  simp

theorem totalOthers_snoc (hid : e.intentId ∈ idsOf j) :
    totalOthers (j ++ [e]) f e.intentId = totalOthers j f e.intentId := by
  unfold totalOthers
  rw [idsOf_snoc, if_pos hid]
  refine congrArg List.sum (List.map_congr_left (fun x _ => ?_))
  by_cases hx : x = e.intentId
  · simp [hx]
  · rw [if_neg hx, if_neg hx, stateOf, view_snoc_of_ne (Ne.symm hx)]

/-- **A record of a known intent changes its own term.** -/
theorem total_snoc (hid : e.intentId ∈ idsOf j) :
    total (j ++ [e]) f = f (stateOf (j ++ [e]) e.intentId) + totalOthers j f e.intentId := by
  rw [total_split (mem_idsOf_snoc.2 (.inr rfl)), totalOthers_snoc hid]

theorem total_snoc_new (hid : e.intentId ∉ idsOf j) :
    total (j ++ [e]) f = total j f + f (stateOf (j ++ [e]) e.intentId) := by
  unfold total
  rw [idsOf_snoc, if_neg hid, List.map_append, List.sum_append, List.map_singleton, List.sum_singleton]
  refine congrArg (· + _) (congrArg List.sum (List.map_congr_left (fun x hx => ?_)))
  rw [stateOf, view_snoc_of_ne (fun h => hid (h ▸ hx))]

/-- **A record that does not raise its own term does not raise the total.** -/
theorem total_snoc_le (h0 : f View.start.state = 0) (h : f (stateOf (j ++ [e]) e.intentId) ≤ f (stateOf j e.intentId)) :
    total (j ++ [e]) f ≤ total j f := by
  by_cases hid : e.intentId ∈ idsOf j
  · rw [total_snoc hid, total_split hid]
    omega
  · rw [total_snoc_new hid]
    have hold : f (stateOf j e.intentId) = 0 := by
      rw [stateOf, view_of_not_mem hid, h0]
    omega

end Order
