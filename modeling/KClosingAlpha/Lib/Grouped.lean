import Mathlib.Data.List.Dedup
import Mathlib.Data.List.Nodup
import Mathlib.Data.List.Sort
import Mathlib.Data.Prod.Lex
/-!
# Grouped — tables sorted by group and rank

A table whose rows have a group and a rank inside it: `sortRows` sorts it by group and then rank, `perGroup` computes
the columns of each group from the rows of that group alone.  Where no key repeats, the rows of a group in the sorted
table depend on the set of its rows only (`group_sortRows`), and what is computed per group has, for a group, what is
computed from it (`group_perGroup`).
-/
namespace Grouped

set_option linter.unusedSectionVars false

variable {ρ β σ τ : Type*} [LinearOrder σ] [LinearOrder τ]

/-- The rows by group and then rank; the sort is stable. -/
def sortRows (key : ρ → σ × τ) (l : List ρ) : List ρ := l.insertionSort (fun a b => toLex (key a) ≤ toLex (key b))

/-- The rows of a group, in the order of the table. -/
def group (sym : ρ → σ) (s : σ) (l : List ρ) : List ρ := l.filter (fun a => decide (sym a = s))

/-- What is computed from each group, group after group: on a sorted table, in the order of the table. -/
def perGroup (sym : ρ → σ) (f : List ρ → List β) (l : List ρ) : List β :=
  (l.map sym).dedup.flatMap (fun s => f (group sym s l))

section Sorted

variable {key : ρ → σ × τ} {l m : List ρ}

theorem sortRows_perm (key : ρ → σ × τ) (l : List ρ) : (sortRows key l).Perm l := List.perm_insertionSort _ l

@[simp] theorem mem_sortRows {a : ρ} : a ∈ sortRows key l ↔ a ∈ l := (sortRows_perm key l).mem_iff

theorem sortRows_pairwise (key : ρ → σ × τ) (l : List ρ) :
    (sortRows key l).Pairwise (fun a b => toLex (key a) ≤ toLex (key b)) := by
  have : Std.Total (fun a b : ρ => toLex (key a) ≤ toLex (key b)) := ⟨fun a b => le_total _ _⟩
  have : IsTrans ρ (fun a b : ρ => toLex (key a) ≤ toLex (key b)) := ⟨fun a b c => le_trans⟩
  exact List.pairwise_insertionSort _ l

theorem nodup_sortRows_keys (h : (l.map key).Nodup) : ((sortRows key l).map key).Nodup :=
  ((sortRows_perm key l).map key).nodup_iff.2 h

/-- Sorted rows whose keys do not repeat are determined by their set. -/
theorem eq_of_perm_of_pairwise (hperm : l.Perm m) (hl : l.Pairwise (fun a b => toLex (key a) ≤ toLex (key b)))
    (hm : m.Pairwise (fun a b => toLex (key a) ≤ toLex (key b))) (hnodup : (l.map key).Nodup) : l = m := by
  refine hperm.eq_of_pairwise (fun a b ha hb hab hba => ?_) hl hm
  exact List.inj_on_of_nodup_map hnodup ha (hperm.mem_iff.2 hb) (toLex.injective (le_antisymm hab hba))

theorem sortRows_congr (hperm : l.Perm m) (hnodup : (l.map key).Nodup) : sortRows key l = sortRows key m :=
  eq_of_perm_of_pairwise (((sortRows_perm key l).trans hperm).trans (sortRows_perm key m).symm) (sortRows_pairwise key l)
    (sortRows_pairwise key m) (nodup_sortRows_keys hnodup)

theorem sortRows_eq_self (h : l.Pairwise (fun a b => toLex (key a) ≤ toLex (key b))) : sortRows key l = l :=
  h.insertionSort_eq

/-- Rows that all come after the others are sorted after them. -/
theorem sortRows_append (h : ∀ a ∈ l, ∀ b ∈ m, toLex (key a) ≤ toLex (key b)) (hnodup : ((l ++ m).map key).Nodup) :
    sortRows key (l ++ m) = sortRows key l ++ sortRows key m := by
  refine eq_of_perm_of_pairwise ?_ (sortRows_pairwise key _) ?_ (nodup_sortRows_keys hnodup)
  · exact (sortRows_perm key _).trans ((sortRows_perm key l).append (sortRows_perm key m)).symm
  · refine List.pairwise_append.2 ⟨sortRows_pairwise key l, sortRows_pairwise key m, fun a ha b hb => ?_⟩
    exact h a (mem_sortRows.1 ha) b (mem_sortRows.1 hb)

theorem filter_sortRows (p : ρ → Bool) (hnodup : (l.map key).Nodup) :
    (sortRows key l).filter p = sortRows key (l.filter p) := by
  refine eq_of_perm_of_pairwise ?_ ((sortRows_pairwise key l).filter p) (sortRows_pairwise key _) ?_
  · exact ((sortRows_perm key l).filter p).trans (sortRows_perm key _).symm
  · exact (nodup_sortRows_keys hnodup).sublist (List.filter_sublist.map key)

theorem map_sortRows {ρ' : Type*} {key' : ρ' → σ × τ} (φ : ρ → ρ') (h : ∀ a, key' (φ a) = key a) (l : List ρ) :
    (sortRows key l).map φ = sortRows key' (l.map φ) :=
  List.map_insertionSort _ _ φ l (fun a _ b _ => by rw [h, h])

/-- In a sorted table, the groups come one after the other. -/
theorem pairwise_group_le {sym : ρ → σ} (hsym : ∀ a, sym a = (key a).1)
    (h : l.Pairwise (fun a b => toLex (key a) ≤ toLex (key b))) : l.Pairwise (fun a b => sym a ≤ sym b) :=
  h.imp (fun hab => by
    rw [hsym, hsym]
    rcases Prod.Lex.le_iff.1 hab with hlt | heq
    · exact le_of_lt hlt
    · exact le_of_eq heq.1)

end Sorted

section Groups

variable {sym : ρ → σ} {l m : List ρ} {s : σ}

@[simp] theorem mem_group {a : ρ} : a ∈ group sym s l ↔ a ∈ l ∧ sym a = s := by
  rw [group, List.mem_filter, decide_eq_true_eq]

theorem group_append (l m : List ρ) : group sym s (l ++ m) = group sym s l ++ group sym s m := List.filter_append ..

theorem group_eq_nil (h : s ∉ l.map sym) : group sym s l = [] :=
  List.filter_eq_nil_iff.2 (fun _ ha hs => h (of_decide_eq_true hs ▸ List.mem_map_of_mem ha))

theorem group_map {ρ' : Type*} {sym' : ρ' → σ} (φ : ρ → ρ') (h : ∀ a, sym' (φ a) = sym a) (l : List ρ) :
    group sym' s (l.map φ) = (group sym s l).map φ := by
  rw [group, List.filter_map, group]
  congr 2
  funext a
  exact decide_eq_decide.2 (by rw [h])

/-- The rows of a group in the sorted table are its rows, sorted. -/
theorem group_sortRows {key : ρ → σ × τ} (hnodup : (l.map key).Nodup) (sym : ρ → σ) (s : σ) :
    group sym s (sortRows key l) = sortRows key (group sym s l) := filter_sortRows _ hnodup

/-- Where the rows of `m` come after those of their group in `l`, a group is its rows of `l` and then those of `m`. -/
theorem group_sortRows_append {key : ρ → σ × τ} (hnodup : ((l ++ m).map key).Nodup)
    (h : ∀ a ∈ l, ∀ b ∈ m, sym a = sym b → toLex (key a) ≤ toLex (key b)) (s : σ) :
    group sym s (sortRows key (l ++ m)) = sortRows key (group sym s l) ++ sortRows key (group sym s m) := by
  have hsub : (group sym s l ++ group sym s m).Sublist (l ++ m) := List.filter_sublist.append List.filter_sublist
  have hle : ∀ a ∈ group sym s l, ∀ b ∈ group sym s m, toLex (key a) ≤ toLex (key b) := by
    intro a ha b hb
    obtain ⟨hal, has⟩ := mem_group.1 ha
    obtain ⟨hbm, hbs⟩ := mem_group.1 hb
    exact h a hal b hbm (has.trans hbs.symm)
  rw [group_sortRows hnodup, group_append, sortRows_append hle (hnodup.sublist (hsub.map _))]

/-- The rows of a group of a table in which all rows are of it. -/
theorem group_eq_self (h : ∀ a ∈ l, sym a = s) : group sym s l = l :=
  List.filter_eq_self.2 (fun a ha => decide_eq_true (h a ha))

theorem group_eq_nil_of_ne {s' : σ} (h : ∀ a ∈ l, sym a = s') (hne : s' ≠ s) : group sym s l = [] :=
  List.filter_eq_nil_iff.2 (fun a ha hs => hne ((h a ha).symm.trans (of_decide_eq_true hs)))

/-- **The columns of a group come from its rows.** -/
theorem group_perGroup {f : List ρ → List β} {symOut : β → σ} (hnil : f [] = [])
    (hf : ∀ g s, (∀ a ∈ g, sym a = s) → ∀ b ∈ f g, symOut b = s) (l : List ρ) (s : σ) :
    group symOut s (perGroup sym f l) = f (group sym s l) := by
  have hgroup : ∀ t, ∀ b ∈ f (group sym t l), symOut b = t := fun t => hf _ t (fun a ha => (mem_group.1 ha).2)
  have main : ∀ ss : List σ, ss.Nodup →
      group symOut s (ss.flatMap (fun t => f (group sym t l))) = if s ∈ ss then f (group sym s l) else [] := by
    intro ss
    induction ss with
    | nil => intro _; rfl
    | cons t ss ih =>
      intro hss
      rw [List.nodup_cons] at hss
      rw [List.flatMap_cons, group_append, ih hss.2]
      by_cases hts : t = s
      · subst hts
        rw [group_eq_self (hgroup t), if_neg hss.1, if_pos List.mem_cons_self, List.append_nil]
      · rw [group_eq_nil_of_ne (hgroup t) hts, List.nil_append]
        simp [Ne.symm hts]
  rw [perGroup, main _ (List.nodup_dedup _)]
  by_cases hs : s ∈ (l.map sym).dedup
  · rw [if_pos hs]
  · rw [if_neg hs, group_eq_nil (fun h => hs (List.mem_dedup.2 h)), hnil]

theorem perGroup_pairwise {f : List ρ → List β} {symOut : β → σ}
    (hf : ∀ g s, (∀ a ∈ g, sym a = s) → ∀ b ∈ f g, symOut b = s) (hl : l.Pairwise (fun a b => sym a ≤ sym b)) :
    (perGroup sym f l).Pairwise (fun a b => symOut a ≤ symOut b) := by
  have hgroup : ∀ t, ∀ b ∈ f (group sym t l), symOut b = t := fun t => hf _ t (fun a ha => (mem_group.1 ha).2)
  have hsorted : (l.map sym).dedup.Pairwise (· ≤ ·) := (List.pairwise_map.2 hl).sublist (List.dedup_sublist _)
  refine List.pairwise_flatMap.2 ⟨fun t _ => ?_, hsorted.imp (fun htu a ha b hb => ?_)⟩
  · exact List.Pairwise.imp_of_mem (R := fun _ _ => True)
      (fun ha hb _ => by rw [hgroup t _ ha, hgroup t _ hb]) (List.pairwise_of_forall (fun _ _ => trivial))
  · rw [hgroup _ a ha, hgroup _ b hb]
    exact htu

/-- Tables whose groups come one after the other are the same where their groups are. -/
theorem eq_of_groups : ∀ {l m : List ρ}, l.Pairwise (fun a b => sym a ≤ sym b) → m.Pairwise (fun a b => sym a ≤ sym b) →
    (∀ s, group sym s l = group sym s m) → l = m
  | [], [], _, _, _ => rfl
  | [], b :: m, _, _, h => by
    have hb : b ∈ group sym (sym b) (b :: m) := mem_group.2 ⟨List.mem_cons_self, rfl⟩
    rw [← h] at hb
    cases hb
  | a :: l, [], _, _, h => by
    have ha : a ∈ group sym (sym a) (a :: l) := mem_group.2 ⟨List.mem_cons_self, rfl⟩
    rw [h] at ha
    cases ha
  | a :: l, b :: m, hl, hm, h => by
    rw [List.pairwise_cons] at hl hm
    have hab : sym a = sym b := by
      have ha : a ∈ b :: m := (mem_group.1 (h (sym a) ▸ mem_group.2 ⟨List.mem_cons_self, rfl⟩)).1
      have hb : b ∈ a :: l := (mem_group.1 ((h (sym b)).symm ▸ mem_group.2 ⟨List.mem_cons_self, rfl⟩)).1
      refine le_antisymm ?_ ?_
      · rcases List.mem_cons.1 hb with rfl | hb
        · exact le_rfl
        · exact hl.1 b hb
      · rcases List.mem_cons.1 ha with rfl | ha
        · exact le_rfl
        · exact hm.1 a ha
    have hhead : a = b := by
      have hs := h (sym a)
      rw [group, group, List.filter_cons_of_pos (by simp), List.filter_cons_of_pos (by simp [hab])] at hs
      exact (List.cons.inj hs).1
    subst hhead
    congr 1
    refine eq_of_groups hl.2 hm.2 (fun s => ?_)
    have hs := h s
    rw [group, group, List.filter_cons, List.filter_cons] at hs
    split_ifs at hs with hif
    · exact (List.cons.inj hs).2
    · exact hs

theorem perGroup_id (h : l.Pairwise (fun a b => sym a ≤ sym b)) : perGroup sym (fun g => g) l = l :=
  eq_of_groups (perGroup_pairwise (fun _ _ hg => hg) h) h (group_perGroup rfl (fun _ _ hg => hg) l)

/-- What keeps the keys of each group keeps those of the table. -/
theorem map_perGroup {κ : Type*} {f : List ρ → List β} {keyIn : ρ → κ} {keyOut : β → κ}
    (hf : ∀ g, (f g).map keyOut = g.map keyIn) (h : l.Pairwise (fun a b => sym a ≤ sym b)) :
    (perGroup sym f l).map keyOut = l.map keyIn := by
  nth_rewrite 2 [← perGroup_id h]
  rw [perGroup, perGroup, List.map_flatMap, List.map_flatMap]
  simp only [hf]

end Groups

end Grouped
