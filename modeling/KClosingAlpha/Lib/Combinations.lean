import Mathlib.Data.List.Sublists
import Mathlib.Data.List.Perm.Subperm
import Mathlib.Data.Nat.Choose.Basic
/-!
# Combinations — the sublists of a given length in lexicographic order, and evenly filled bins

`combinations` lists what Mathlib's `sublistsLen` lists, in the order of the positions chosen.  `binOf` spreads `size`
positions over `bins` bins in order; with at least as many positions as bins none stays empty.
-/
namespace Combinations

variable {α : Type*}

/-- The sublists of length `k`, by the positions chosen. -/
def combinations : List α → Nat → List (List α)
  | _, 0 => [[]]
  | [], _ + 1 => []
  | x :: xs, k + 1 => (combinations xs k).map (x :: ·) ++ combinations xs (k + 1)

theorem combinations_zero (l : List α) : combinations l 0 = [[]] := by cases l <;> rfl

theorem combinations_perm : ∀ (l : List α) (k : Nat), (combinations l k).Perm (l.sublistsLen k)
  | l, 0 => by rw [combinations_zero, List.sublistsLen_zero]
  | [], k + 1 => by simp [combinations]
  | x :: xs, k + 1 => by
    rw [combinations, List.sublistsLen_succ_cons]
    exact (((combinations_perm xs k).map _).append (combinations_perm xs (k + 1))).trans List.perm_append_comm

theorem length_combinations (l : List α) (k : Nat) : (combinations l k).length = l.length.choose k := by
  rw [(combinations_perm l k).length_eq, List.length_sublistsLen]

theorem mem_combinations {l s : List α} {k : Nat} : s ∈ combinations l k ↔ s.Sublist l ∧ s.length = k := by
  rw [(combinations_perm l k).mem_iff, List.mem_sublistsLen]

/-- **An element is in as many combinations as there are ways to choose the rest of them.** -/
theorem countP_combinations [DecidableEq α] {a : α} : ∀ {l : List α} (k : Nat), l.Nodup → a ∈ l →
    (combinations l (k + 1)).countP (fun s => decide (a ∈ s)) = (l.length - 1).choose k
  | x :: xs, k, hnd, ha => by
    obtain ⟨hx, hxs⟩ := List.nodup_cons.1 hnd
    rw [combinations, List.countP_append, List.countP_map]
    by_cases hax : a = x
    · subst hax
      have hall : (combinations xs k).countP ((fun s => decide (a ∈ s)) ∘ (a :: ·)) = (combinations xs k).length :=
        List.countP_eq_length.2 fun s _ => by simp
      have hnone : (combinations xs (k + 1)).countP (fun s => decide (a ∈ s)) = 0 :=
        List.countP_eq_zero.2 fun s hs => by
          have := (mem_combinations.1 hs).1
          simpa using fun has => hx (this.subset has)
      rw [hall, hnone, length_combinations]
      rfl
    · have haxs : a ∈ xs := (List.mem_cons.1 ha).resolve_left hax
      have hcongr : (combinations xs k).countP ((fun s => decide (a ∈ s)) ∘ (x :: ·)) =
          (combinations xs k).countP (fun s => decide (a ∈ s)) :=
        List.countP_congr fun s _ => by simp [hax]
      obtain ⟨m, hm⟩ := Nat.exists_eq_succ_of_ne_zero (List.length_pos_of_mem haxs).ne'
      rw [hcongr, countP_combinations k hxs haxs]
      cases k with
      | zero => simp [combinations_zero]
      | succ k =>
        rw [countP_combinations k hxs haxs, List.length_cons, hm]
        exact (Nat.choose_succ_succ m k).symm

/-! ## Bins -/

/-- The bin of a position. -/
def binOf (size bins position : Nat) : Nat := min (position * bins / size) (bins - 1)

theorem binOf_lt {size bins : Nat} (position : Nat) (h : 0 < bins) : binOf size bins position < bins := by
  unfold binOf
  omega

/-- The first position whose share reaches bin `b`. -/
theorem exists_share {bins : Nat} (share : Nat) (h : 0 < bins) :
    ∃ position, share ≤ position * bins ∧ position * bins < share + bins := by
  refine ⟨(share + bins - 1) / bins, ?_⟩
  have hdiv := Nat.div_add_mod (share + bins - 1) bins
  have hmod := Nat.mod_lt (share + bins - 1) h
  rw [Nat.mul_comm] at hdiv
  generalize (share + bins - 1) / bins * bins = filled at hdiv
  omega

/-- **Every bin is filled.** -/
theorem exists_binOf {size bins b : Nat} (hsize : bins ≤ size) (hb : b < bins) :
    ∃ position < size, binOf size bins position = b := by
  have hbins : 0 < bins := Nat.zero_lt_of_lt hb
  obtain ⟨position, hlo, hhi⟩ := exists_share (b * size) hbins
  have hnext : position * bins < (b + 1) * size := by
    rw [Nat.succ_mul]
    omega
  have hfit : (b + 1) * size ≤ size * bins := by
    rw [Nat.mul_comm size]
    exact Nat.mul_le_mul_right size hb
  have hshare : position * bins / size = b :=
    Nat.div_eq_of_lt_le hlo hnext
  refine ⟨position, Nat.lt_of_mul_lt_mul_right (hnext.trans_le hfit), ?_⟩
  unfold binOf
  omega

end Combinations
